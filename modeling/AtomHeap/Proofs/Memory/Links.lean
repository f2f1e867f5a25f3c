import AtomHeap.Memory.Links
import Mathlib.Data.List.Lattice
import Mathlib.Logic.Function.Basic
/-!
# Linked lists keep what plain lists keep

`Links.Path m first l`: following the links from `first` leads through the blocks `l` and ends. There is at most
one such path from a block, so it comes to no block twice. A path is settled by the links of the blocks on it:
where several lists have no block in common, whatever is written to the blocks of one is not seen by the others,
nor is what callers write to blocks that are on none.

`LinkedLists` are any number of free lists in one memory, on which operations are carried out in turn. The same
operations on plain lists, `BlockLists`, give the same answers, and the paths of the linked lists stay the plain
lists (`linked_lists_refine`). In particular the walk to the bottom of a list always ends.
-/

namespace AtomHeap

namespace Links

variable {m m' : Links} {first : Option Address} {b last : Address} {l l' below : List Address} {n : Nat}

/-! ## Paths -/

/-- Following the links from a block leads through these blocks and ends. -/
inductive Path (m : Links) : Option Address → List Address → Prop
  | nil : Path m none []
  | cons {b : Address} {l : List Address} : Path m (m b) l → Path m (some b) (b :: l)

theorem write_self (m : Links) (b : Address) (link : Option Address) : m.write b link b = link := if_pos rfl

theorem write_of_ne {a : Address} (h : a ≠ b) (link : Option Address) : m.write b link a = m a := if_neg h

namespace Path

theorem top_eq (h : Path m first l) : first = l.head? := by
  cases h <;> rfl

theorem congr (h : Path m first l) (hl : ∀ a ∈ l, m' a = m a) : Path m' first l := by
  induction h with
  | nil => exact .nil
  | @cons b l _ ih =>
    refine .cons ?_
    rw [hl b (.head _)]
    exact ih fun a ha => hl a (.tail _ ha)

/-- Writing to a block that is not on the path does not change it. -/
theorem write (h : Path m first l) (hb : b ∉ l) (link : Option Address) : Path (m.write b link) first l :=
  h.congr fun _ ha => write_of_ne (ne_of_mem_of_not_mem ha hb) link

theorem unique (h : Path m first l) (h' : Path m first l') : l' = l := by
  induction h generalizing l' with
  | nil =>
    cases h'
    rfl
  | cons _ ih =>
    cases h' with
    | cons h' => rw [ih h']

/-- From each block on a path the rest of it is a path. -/
theorem of_append (h : Path m first (l ++ b :: below)) : Path m (some b) (b :: below) := by
  induction l generalizing first with
  | nil =>
    cases h with
    | cons h => exact .cons h
  | cons c l ih =>
    cases h with
    | cons h => exact ih h

/-- A path that ends comes to no block twice, for it would have to go on in the same way from there. -/
theorem nodup (h : Path m first l) : l.Nodup := by
  induction h with
  | nil => exact .nil
  | @cons b l h ih =>
    refine List.nodup_cons.2 ⟨fun hb => ?_, ih⟩
    obtain ⟨above, below, rfl⟩ := List.append_of_mem hb
    have hlength := congrArg List.length ((Path.cons h).unique h.of_append)
    simp only [List.length_cons, List.length_append] at hlength
    omega

/-! ## Going along a path -/

theorem below_eq (h : Path m (some b) (b :: l)) (hn : n ≤ l.length) :
    ∃ above last rest, b :: l = above ++ last :: rest ∧ above.length = n ∧ m.below n b = last ∧
      Path m (m last) rest := by
  induction n generalizing b l with
  | zero =>
    cases h with
    | cons h => exact ⟨[], b, l, rfl, rfl, rfl, h⟩
  | succ n ih =>
    cases h with
    | cons h =>
      cases l with
      | nil => cases hn
      | cons c l =>
        have hlink : m b = some c := h.top_eq
        rw [hlink] at h
        obtain ⟨above, last, rest, hsplit, hlength, hbelow, hrest⟩ := ih h (Nat.le_of_succ_le_succ hn)
        refine ⟨b :: above, last, rest, congrArg (b :: ·) hsplit, congrArg (· + 1) hlength, ?_, hrest⟩
        unfold Links.below
        rw [hlink]
        exact hbelow

theorem bottom_eq (h : Path m (some b) (b :: l)) :
    ∃ above last, b :: l = above ++ [last] ∧ m.bottom b = Part.some last := by
  induction l generalizing b with
  | nil =>
    cases h with
    | cons h =>
      exact ⟨[], b, rfl, bottom_of_none h.top_eq⟩
  | cons c l ih =>
    cases h with
    | cons h =>
      have hlink : m b = some c := h.top_eq
      rw [hlink] at h
      obtain ⟨above, last, hsplit, hbottom⟩ := ih h
      exact ⟨b :: above, last, congrArg (b :: ·) hsplit, (bottom_of_some hlink).trans hbottom⟩

/-! ## Changing a link -/

/-- The path up to a block leads on to wherever the link of that block points. -/
theorem relink (h : Path m first (l ++ last :: below)) {link : Option Address} {rest : List Address}
    (hrest : Path m link rest) (hlast : last ∉ rest) :
    Path (m.write last link) first (l ++ last :: rest) := by
  have hnodup := h.nodup
  induction l generalizing first with
  | nil =>
    cases h with
    | cons h =>
      refine .cons ?_
      rw [write_self]
      exact hrest.write hlast link
  | cons b l ih =>
    cases h with
    | cons h =>
      have hne : b ≠ last := by
        rintro rfl
        exact (List.nodup_cons.1 hnodup).1 (List.mem_append_right l (.head below))
      refine .cons ?_
      rw [write_of_ne hne]
      exact ih h (List.nodup_cons.1 hnodup).2

end Path

end Links

/-! ## One list -/

namespace LinkedList

variable {s top : LinkedList} {m : Links} {b : Address} {l l' : List Address} {n : Nat}

/-- The blocks of a linked list are these, from the top. -/
structure Keeps (s : LinkedList) (m : Links) (l : List Address) : Prop where
  path : m.Path s.top l
  length : s.length = l.length

theorem keeps_empty (m : Links) : Keeps {} m [] := ⟨.nil, rfl⟩

theorem Keeps.write (h : s.Keeps m l) (hb : b ∉ l) (link : Option Address) : s.Keeps (m.write b link) l :=
  ⟨h.path.write hb link, h.length⟩

theorem Keeps.push (h : s.Keeps m l) (hb : b ∉ l) : (s.push m b).1.Keeps (s.push m b).2 (b :: l) := by
  refine ⟨.cons ?_, congrArg (· + 1) h.length⟩
  unfold LinkedList.push
  dsimp only
  rw [Links.write_self]
  exact h.path.write hb s.top

theorem Keeps.pop_none (h : s.Keeps m []) : s.pop? m = none := by
  unfold pop?
  rw [h.path.top_eq]
  rfl

theorem Keeps.pop_some (h : s.Keeps m (b :: l)) : ∃ s', s.pop? m = some (b, s') ∧ s'.Keeps m l := by
  have htop : s.top = some b := h.path.top_eq
  have hpath := h.path
  rw [htop] at hpath
  refine ⟨⟨m b, s.length - 1⟩, ?_, ?_, ?_⟩
  · unfold pop?
    rw [htop]
  · cases hpath with
    | cons hpath => exact hpath
  · rw [h.length]
    rfl

/-- The list is cut in two, and no link but that of the last block taken is changed. -/
theorem Keeps.splitTop (h : s.Keeps m l) (n : Nat) :
    ∃ taken rest m', s.splitTop m n = ((taken, rest), m') ∧ taken.Keeps m' (l.take n) ∧ rest.Keeps m' (l.drop n) ∧
      ∀ b ∉ l, m' b = m b := by
  have hpath := h.path
  unfold LinkedList.splitTop
  cases l with
  | nil =>
    rw [show s.top = none from hpath.top_eq]
    refine ⟨{}, s, m, rfl, ?_, ?_, fun _ _ => rfl⟩
    · rw [List.take_nil]
      exact keeps_empty m
    · rwa [List.drop_nil]
  | cons top l =>
    have htop : s.top = some top := hpath.top_eq
    rw [htop] at hpath ⊢
    dsimp only
    split_ifs with hzero hall
    · subst hzero
      exact ⟨{}, s, m, rfl, keeps_empty m, h, fun _ _ => rfl⟩
    · rw [h.length] at hall
      refine ⟨s, {}, m, rfl, ?_, ?_, fun _ _ => rfl⟩
      · rwa [List.take_of_length_le hall]
      · rw [List.drop_of_length_le hall]
        exact keeps_empty m
    · have hn : n - 1 ≤ l.length := by
        rw [h.length, List.length_cons] at hall
        omega
      obtain ⟨above, last, rest, hsplit, hlength, hbelow, hrest⟩ := hpath.below_eq hn
      have hnodup := hpath.nodup
      have hfull := h.length
      rw [hsplit] at hpath hnodup hfull ⊢
      rw [hbelow]
      -- The blocks down to the last one taken are as many as were asked for.
      have hcut : n = (above ++ [last]).length := by
        rw [List.length_append, List.length_singleton]
        omega
      have happend : above ++ last :: rest = (above ++ [last]) ++ rest := by simp
      have hlast : last ∉ rest := (List.nodup_cons.1 (hnodup.sublist (List.sublist_append_right _ _))).1
      refine ⟨_, _, _, rfl, ?_, ?_, fun b hb => ?_⟩
      · rw [happend, hcut, List.take_left]
        exact ⟨hpath.relink .nil List.not_mem_nil, rfl⟩
      · rw [happend, hcut, List.drop_left]
        refine ⟨hrest.write hlast none, ?_⟩
        dsimp only
        rw [hfull, happend, List.length_append]
        omega
      · refine Links.write_of_ne ?_ none
        rintro rfl
        exact hb (List.mem_append_right above (.head rest))

/-- The walk to the bottom ends, and no link but that of the bottom block is changed. -/
theorem Keeps.append (h : s.Keeps m l) (htop : top.Keeps m l') (hapart : l'.Disjoint l) :
    ∃ s' m', s.append m top = Part.some (s', m') ∧ s'.Keeps m' (l' ++ l) ∧ ∀ b ∉ l', m' b = m b := by
  have hpath := htop.path
  unfold LinkedList.append
  cases l' with
  | nil =>
    rw [show top.top = none from hpath.top_eq]
    exact ⟨s, m, rfl, h, fun _ _ => rfl⟩
  | cons b l' =>
    have hb : top.top = some b := hpath.top_eq
    rw [hb] at hpath ⊢
    obtain ⟨above, last, hsplit, hbottom⟩ := hpath.bottom_eq
    have hlength := htop.length
    rw [hsplit] at hpath hlength hapart ⊢
    simp only [hbottom, Part.bind_eq_bind, Part.bind_some, Part.pure_eq_some]
    have hmem : last ∈ above ++ [last] := List.mem_append_right above (.head [])
    refine ⟨_, _, rfl, ⟨?_, ?_⟩, fun a ha => ?_⟩
    · rw [List.append_assoc]
      exact hpath.relink h.path (hapart hmem)
    · rw [List.length_append, h.length, hlength, Nat.add_comm]
    · refine Links.write_of_ne ?_ _
      rintro rfl
      exact ha hmem

end LinkedList

/-! ## Any number of lists -/

/-- An operation on free lists that are told apart by numbers. -/
inductive ListOp
  | push (i : Nat) (b : Address)
  | pop (i : Nat)
  /-- The topmost blocks of list `i`, up to `n` of them, become list `taken`. -/
  | splitTop (i n taken : Nat)
  /-- All of list `top` goes on top of list `i`. -/
  | append (i top : Nat)
  /-- Somebody who has a block writes to it. -/
  | write (b : Address) (link : Option Address)
  deriving DecidableEq, Repr

/-- Carries out some operations in turn, and collects the blocks that come off lists. -/
def performAll {α : Type} (perform : α → ListOp → Part (Option Address × α)) (lists : α) :
    List ListOp → Part (List (Option Address) × α)
  | [] => Part.some ([], lists)
  | op :: ops => do
    let (answer, lists) ← perform lists op
    let (answers, lists) ← performAll perform lists ops
    return (answer :: answers, lists)

theorem performAll_cons {α : Type} {perform : α → ListOp → Part (Option Address × α)} {lists lists₁ lists₂ : α}
    {op : ListOp} {ops : List ListOp} {answer : Option Address} {answers : List (Option Address)}
    (hfirst : perform lists op = Part.some (answer, lists₁))
    (hrest : performAll perform lists₁ ops = Part.some (answers, lists₂)) :
    performAll perform lists (op :: ops) = Part.some (answer :: answers, lists₂) := by
  simp only [performAll, hfirst, hrest, Part.bind_eq_bind, Part.bind_some, Part.pure_eq_some]

/-- Plain lists of blocks, from the top. -/
abbrev BlockLists := Nat → List Address

/-- Free lists with the numbers of their blocks beside them. -/
abbrev FreeLists := Nat → FreeList

/-- Linked lists in one memory. -/
structure LinkedLists where
  list : Nat → LinkedList
  links : Links

namespace BlockLists

def perform (ls : BlockLists) : ListOp → Option Address × BlockLists
  | .push i b => (none, Function.update ls i (b :: ls i))
  | .pop i => ((ls i).head?, Function.update ls i (ls i).tail)
  | .splitTop i n taken =>
    (none, Function.update (Function.update ls taken ((ls i).take n)) i ((ls i).drop n))
  | .append i top => (none, Function.update (Function.update ls top []) i (ls top ++ ls i))
  | .write _ _ => (none, ls)

/-- A block that is pushed or written to is on no list, and the two lists of an operation are not the same. -/
def Allows (ls : BlockLists) : ListOp → Prop
  | .push _ b | .write b _ => ∀ i, b ∉ ls i
  | .splitTop i _ j | .append i j => i ≠ j
  | .pop _ => True

/-- All of some operations keep to that. -/
def AllowsAll (ls : BlockLists) : List ListOp → Prop
  | [] => True
  | op :: ops => ls.Allows op ∧ (ls.perform op).2.AllowsAll ops

end BlockLists

def FreeLists.perform (ls : FreeLists) : ListOp → Option Address × FreeLists
  | .push i b => (none, Function.update ls i ((ls i).push b))
  | .pop i =>
    match (ls i).pop? with
    | some (b, l) => (some b, Function.update ls i l)
    | none => (none, ls)
  | .splitTop i n taken =>
    (none, Function.update (Function.update ls taken ((ls i).splitTop n).1) i ((ls i).splitTop n).2)
  | .append i top => (none, Function.update (Function.update ls top {}) i ((ls i).append (ls top)))
  | .write _ _ => (none, ls)

namespace LinkedLists

/-- Carries out an operation, if it ever ends. -/
def perform (s : LinkedLists) : ListOp → Part (Option Address × LinkedLists)
  | .push i b =>
    let (l, links) := (s.list i).push s.links b
    Part.some (none, ⟨Function.update s.list i l, links⟩)
  | .pop i =>
    match (s.list i).pop? s.links with
    | some (b, l) => Part.some (some b, ⟨Function.update s.list i l, s.links⟩)
    | none => Part.some (none, s)
  | .splitTop i n taken =>
    let ((top, rest), links) := (s.list i).splitTop s.links n
    Part.some (none, ⟨Function.update (Function.update s.list taken top) i rest, links⟩)
  | .append i top => do
    let (l, links) ← (s.list i).append s.links (s.list top)
    return (none, ⟨Function.update (Function.update s.list top {}) i l, links⟩)
  | .write b link => Part.some (none, ⟨s.list, s.links.write b link⟩)

variable {s : LinkedLists} {ls : BlockLists} {op : ListOp} {ops : List ListOp} {i j n : Nat} {l : List Address}
  {b : Address}

/-- Each of the linked lists has just the blocks of a plain list, each block once, and no block is on two lists. -/
structure Keeps (s : LinkedLists) (ls : BlockLists) : Prop where
  list : ∀ i, (s.list i).Keeps s.links (ls i)
  nodup : ∀ i, (ls i).Nodup
  apart : ∀ b i j, b ∈ ls i → b ∈ ls j → i = j

theorem keeps_start (links : Links) : Keeps ⟨fun _ => {}, links⟩ fun _ => [] :=
  ⟨fun _ => LinkedList.keeps_empty links, fun _ => .nil, nofun⟩

namespace Keeps

theorem of_list (hlist : ∀ i, (s.list i).Keeps s.links (ls i))
    (hapart : ∀ b i j, b ∈ ls i → b ∈ ls j → i = j) : s.Keeps ls :=
  ⟨hlist, fun i => (hlist i).path.nodup, hapart⟩

theorem notMem (h : s.Keeps ls) (hij : i ≠ j) (hb : b ∈ ls i) : b ∉ ls j := fun hj => hij (h.apart b i j hb hj)

theorem write (h : s.Keeps ls) (hb : ∀ i, b ∉ ls i) (link : Option Address) :
    Keeps ⟨s.list, s.links.write b link⟩ ls := .of_list (fun i => (h.list i).write (hb i) link) h.apart

/-- A list is the one that it is replaced by, or the one that there was. -/
theorem replaced {list : Nat → LinkedList} {m : Links} {s₁ : LinkedList} {l₁ : List Address} {k : Nat}
    (h₁ : s₁.Keeps m l₁) (hother : k ≠ i → (list k).Keeps m (ls k)) :
    (Function.update list i s₁ k).Keeps m (Function.update ls i l₁ k) := by
  by_cases hi : k = i
  · subst hi
    rwa [Function.update_self, Function.update_self]
  · rw [Function.update_of_ne hi, Function.update_of_ne hi]
    exact hother hi

/-- List `i` is replaced by one with no block of another list. -/
theorem one (h : s.Keeps ls) {m : Links} {s₁ : LinkedList} {l₁ : List Address} (h₁ : s₁.Keeps m l₁)
    (hsame : ∀ k, k ≠ i → ∀ b ∈ ls k, m b = s.links b) (hapart : ∀ b ∈ l₁, ∀ k, k ≠ i → b ∉ ls k) :
    Keeps ⟨Function.update s.list i s₁, m⟩ (Function.update ls i l₁) := by
  refine .of_list (fun k => replaced h₁ fun hi => ?_) fun b k k' hk hk' => ?_
  · exact ⟨(h.list k).path.congr (hsame k hi), (h.list k).length⟩
  · have := h.apart b
    have := hapart b
    simp only [Function.update_apply] at hk hk'
    grind

/-- Two lists are replaced by two that have no block in common, nor blocks of other lists. -/
theorem two (h : s.Keeps ls) {m : Links} {s₁ s₂ : LinkedList} {l₁ l₂ : List Address}
    (h₁ : s₁.Keeps m l₁) (h₂ : s₂.Keeps m l₂) (hsame : ∀ k, k ≠ i → k ≠ j → ∀ b ∈ ls k, m b = s.links b)
    (hmem : ∀ b, b ∈ l₁ ∨ b ∈ l₂ → b ∈ ls i ∨ b ∈ ls j) (hapart : ∀ b ∈ l₁, b ∉ l₂) :
    Keeps ⟨Function.update (Function.update s.list j s₂) i s₁, m⟩
      (Function.update (Function.update ls j l₂) i l₁) := by
  refine .of_list (fun k => replaced h₁ fun hi => replaced h₂ fun hj => ?_) fun b k k' hk hk' => ?_
  · exact ⟨(h.list k).path.congr (hsame k hi hj), (h.list k).length⟩
  · have := h.apart b
    have := hmem b
    have := hapart b
    simp only [Function.update_apply] at hk hk'
    grind

end Keeps

/-- Within the contract an operation ends, gives the same answer as on plain lists, and the linked lists still
keep what the plain ones do. -/
theorem Keeps.perform (h : s.Keeps ls) (hop : ls.Allows op) :
    ∃ s', s.perform op = Part.some ((ls.perform op).1, s') ∧ s'.Keeps (ls.perform op).2 := by
  cases op with
  | push i b =>
    refine ⟨_, rfl, h.one ((h.list i).push (hop i)) (fun k _ a ha => ?_) fun a ha k hk => ?_⟩
    · exact Links.write_of_ne (ne_of_mem_of_not_mem ha (hop k)) _
    · rcases List.mem_cons.1 ha with rfl | ha
      · exact hop k
      · exact h.notMem (Ne.symm hk) ha
  | write b link => exact ⟨_, rfl, h.write hop link⟩
  | pop i =>
    have hi := h.list i
    dsimp only [LinkedLists.perform, BlockLists.perform]
    cases hl : ls i with
    | nil =>
      rw [hl] at hi
      have hsame : Function.update ls i [] = ls := by rw [← hl, Function.update_eq_self]
      rw [hi.pop_none, List.tail_nil, hsame]
      exact ⟨s, rfl, h⟩
    | cons b l =>
      rw [hl] at hi
      obtain ⟨s', hpop, hs'⟩ := hi.pop_some
      rw [hpop]
      refine ⟨_, rfl, h.one hs' (fun _ _ _ _ => rfl) fun a ha k hk => ?_⟩
      exact h.notMem (Ne.symm hk) (hl ▸ List.mem_cons_of_mem b ha)
  | splitTop i n taken =>
    obtain ⟨top, rest, m, hsplit, htop, hrest, hsame⟩ := (h.list i).splitTop n
    dsimp only [LinkedLists.perform, BlockLists.perform]
    rw [hsplit]
    refine ⟨_, rfl, h.two hrest htop (fun k hk _ b hb => hsame b (h.notMem hk hb)) ?_ ?_⟩
    · rintro b (hb | hb)
      · exact .inl (List.mem_of_mem_drop hb)
      · exact .inl (List.mem_of_mem_take hb)
    · intro b hdrop htake
      exact List.disjoint_take_drop (h.nodup i) (Nat.le_refl n) htake hdrop
  | append i top =>
    obtain ⟨l, m, happend, hl, hsame⟩ :=
      (h.list i).append (h.list top) fun b hb => h.notMem (Ne.symm hop) hb
    simp only [LinkedLists.perform, BlockLists.perform, happend, Part.bind_eq_bind, Part.bind_some, Part.pure_eq_some]
    refine ⟨_, rfl, h.two hl (LinkedList.keeps_empty m) (fun k _ hk b hb => hsame b (h.notMem hk hb)) ?_ nofun⟩
    rintro b (hb | hb)
    · exact (List.mem_append.1 hb).symm
    · cases hb

end LinkedLists

/-! ## The refinement -/

/-- A free list of some blocks. -/
def FreeList.ofBlocks (l : List Address) : FreeList := ⟨l, l.length⟩

theorem FreeList.splitTop_ofBlocks (l : List Address) (n : Nat) :
    (ofBlocks l).splitTop n = (ofBlocks (l.take n), ofBlocks (l.drop n)) := by
  unfold FreeList.splitTop ofBlocks
  dsimp only
  split
  · rename_i hall
    rw [List.take_of_length_le hall, List.drop_of_length_le hall]
    rfl
  · rename_i hsome
    rw [List.length_take_of_le (Nat.le_of_not_le hsome), List.length_drop]

/-- Numbers beside the blocks make no difference. -/
theorem FreeLists.perform_ofBlocks (ls : BlockLists) (op : ListOp) :
    FreeLists.perform (fun i => .ofBlocks (ls i)) op =
      ((ls.perform op).1, fun i => .ofBlocks ((ls.perform op).2 i)) := by
  have hupdate (ls : BlockLists) (i : Nat) (l : List Address) :
      (fun k => FreeList.ofBlocks (Function.update ls i l k)) =
        Function.update (fun k => FreeList.ofBlocks (ls k)) i (.ofBlocks l) :=
    Function.comp_update FreeList.ofBlocks ls i l
  cases op with
  | push i b =>
    dsimp only [FreeLists.perform, BlockLists.perform]
    rw [hupdate]
    rfl
  | write b link => rfl
  | pop i =>
    dsimp only [FreeLists.perform, BlockLists.perform]
    rw [hupdate]
    cases hl : ls i with
    | nil =>
      have hsame : Function.update (fun k => FreeList.ofBlocks (ls k)) i (.ofBlocks []) =
          fun k => FreeList.ofBlocks (ls k) := by rw [← hl, Function.update_eq_self]
      rw [List.tail_nil, hsame]
      rfl
    | cons b l => rfl
  | splitTop i n taken =>
    dsimp only [FreeLists.perform, BlockLists.perform]
    rw [hupdate, hupdate, FreeList.splitTop_ofBlocks]
  | append i top =>
    dsimp only [FreeLists.perform, BlockLists.perform]
    rw [hupdate, hupdate]
    unfold FreeList.append FreeList.ofBlocks
    rw [List.length_append, Nat.add_comm]
    rfl

/-- What operations on plain lists come to, those on lists that are kept in other ways come to as well. -/
theorem LinkedLists.Keeps.performAll {s : LinkedLists} {ls : BlockLists} {ops : List ListOp} (h : s.Keeps ls)
    (hops : ls.AllowsAll ops) :
    ∃ answers ls' s',
      performAll (fun ls op => Part.some (BlockLists.perform ls op)) ls ops = Part.some (answers, ls') ∧
      performAll (fun ls op => Part.some (FreeLists.perform ls op)) (fun i => .ofBlocks (ls i)) ops =
        Part.some (answers, fun i => .ofBlocks (ls' i)) ∧
      performAll LinkedLists.perform s ops = Part.some (answers, s') ∧ s'.Keeps ls' := by
  induction ops generalizing s ls with
  | nil => exact ⟨[], ls, s, rfl, rfl, rfl, h⟩
  | cons op ops ih =>
    obtain ⟨hop, hops⟩ := hops
    obtain ⟨s₁, hperform, h₁⟩ := h.perform hop
    obtain ⟨answers, ls', s', hplain, hfree, hlinked, h'⟩ := ih h₁ hops
    refine ⟨(ls.perform op).1 :: answers, ls', s', ?_, ?_, ?_, h'⟩
    · exact performAll_cons rfl hplain
    · exact performAll_cons (congrArg Part.some (FreeLists.perform_ofBlocks ls op)) hfree
    · exact performAll_cons hperform hlinked

/-- Any number of free lists in one memory, whatever is in it at first: operations in any order, each within its
contract, end, and have the answers that they have on plain lists. Then each linked list has just the blocks of a
plain list, from the top, and their number; no block is on a list twice or on two lists. So it is for free lists
with the number of blocks beside them. -/
theorem linked_lists_refine (links : Links) {ops : List ListOp} (hops : BlockLists.AllowsAll (fun _ => []) ops) :
    ∃ answers ls s,
      performAll (fun ls op => Part.some (BlockLists.perform ls op)) (fun _ => []) ops = Part.some (answers, ls) ∧
      performAll (fun ls op => Part.some (FreeLists.perform ls op)) (fun _ => {}) ops =
        Part.some (answers, fun i => .ofBlocks (ls i)) ∧
      performAll LinkedLists.perform ⟨fun _ => {}, links⟩ ops = Part.some (answers, s) ∧ s.Keeps ls :=
  (LinkedLists.keeps_start links).performAll hops

/-- Three blocks, the upper two of which are cut off, taken from and written to, and put back. All words of the
memory pointed to one block at first. -/
theorem linked_lists_refine_cut_and_joined :
    ∃ s, performAll LinkedLists.perform ⟨fun _ => {}, fun _ => some .null⟩
        [.push 0 ⟨.carving 0, 0⟩, .push 0 ⟨.carving 0, 16⟩, .push 0 ⟨.carving 0, 32⟩, .splitTop 0 2 1, .pop 1,
          .write ⟨.carving 0, 32⟩ (some ⟨.carving 0, 16⟩), .append 0 1, .pop 1] =
        Part.some ([none, none, none, none, some ⟨.carving 0, 32⟩, none, none, none], s) ∧
      (s.list 0).Keeps s.links [⟨.carving 0, 16⟩, ⟨.carving 0, 0⟩] ∧ (s.list 1).Keeps s.links [] := by
  obtain ⟨answers, ls, s, hplain, -, hlinked, hkeeps⟩ := @linked_lists_refine (fun _ => some .null)
    [.push 0 ⟨.carving 0, 0⟩, .push 0 ⟨.carving 0, 16⟩, .push 0 ⟨.carving 0, 32⟩, .splitTop 0 2 1, .pop 1,
      .write ⟨.carving 0, 32⟩ (some ⟨.carving 0, 16⟩), .append 0 1, .pop 1] (by
        simp [BlockLists.AllowsAll, BlockLists.Allows, BlockLists.perform, Function.update_apply]
        grind)
  simp only [performAll, Part.bind_eq_bind, Part.bind_some, Part.pure_eq_some, Part.some_inj, Prod.mk.injEq] at hplain
  obtain ⟨rfl, rfl⟩ := hplain
  exact ⟨s, hlinked, hkeeps.list 0, hkeeps.list 1⟩

end AtomHeap
