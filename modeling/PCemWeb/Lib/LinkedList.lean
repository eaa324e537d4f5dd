import Mathlib.Data.List.Basic
import Mathlib.Data.List.Nodup
import Mathlib.Tactic.Common

/-!
# Linked lists in arrays

Nodes are numbered from 1 and 0 ends a list, so a list lives in `next` and `prev` tables and
a head. `Chain` reads a list through `next` alone; `ListAt` also checks every back link.
Updates of the tables are described pointwise, node by node, so a lemma applies whatever
order the program writes the links in and whatever else it writes.
-/

namespace PCemWeb.Lib

/-! ## Singly linked lists -/

/-- The list read from `head` through `next`. -/
def Chain (next : Nat → Nat) : (head : Nat) → List Nat → Prop
  | head, [] => head = 0
  | head, a :: l => head = a ∧ a ≠ 0 ∧ Chain next (next a) l

section

variable {next next' prev prev' : Nat → Nat} {head tail head' tail' p n a : Nat}
  {l xs ys : List Nat}

theorem Chain.congr (chain : Chain next head l) (same : ∀ b ∈ l, next' b = next b) :
    Chain next' head l := by
  induction l generalizing head with
  | nil => exact chain
  | cons a l ih =>
    obtain ⟨rfl, nonzero, rest⟩ := chain
    exact ⟨rfl, nonzero, same head (.head _) ▸ ih rest fun b inRest => same b (.tail _ inRest)⟩

theorem Chain.push (chain : Chain next head l) (nonzero : a ≠ 0) (linked : next' a = head)
    (same : ∀ b ∈ l, next' b = next b) : Chain next' a (a :: l) :=
  ⟨rfl, nonzero, linked ▸ chain.congr same⟩

theorem Chain.ne_zero (chain : Chain next head l) : ∀ b ∈ l, b ≠ 0 := by
  induction l generalizing head with
  | nil => simp
  | cons a l ih =>
    obtain ⟨rfl, nonzero, rest⟩ := chain
    intro b member
    rcases List.mem_cons.mp member with rfl | inRest
    · exact nonzero
    · exact ih rest b inRest

theorem Chain.eq_nil (chain : Chain next 0 l) : l = [] := by
  cases l with
  | nil => rfl
  | cons a l => exact absurd chain.1.symm chain.2.1

/-- The links determine the list. -/
theorem Chain.unique {l' : List Nat} (chain : Chain next head l) (chain' : Chain next head l') :
    l = l' := by
  induction l generalizing head l' with
  | nil =>
    obtain rfl : head = 0 := chain
    exact chain'.eq_nil.symm
  | cons a l ih =>
    obtain ⟨rfl, nonzero, rest⟩ := chain
    cases l' with
    | nil => exact absurd chain' nonzero
    | cons b l' =>
      obtain ⟨rfl, -, rest'⟩ := chain'
      rw [ih rest rest']

theorem Chain.exists_cons (chain : Chain next head l) (nonzero : head ≠ 0) :
    ∃ rest, l = head :: rest ∧ Chain next (next head) rest := by
  cases l with
  | nil => exact absurd chain nonzero
  | cons a l =>
    obtain ⟨rfl, -, rest⟩ := chain
    exact ⟨l, rfl, rest⟩

/-! ## Segments -/

/-- The nodes of a segment, entered from `p` and left to `n`, linked both ways. -/
def Segment (next prev : Nat → Nat) : (p : Nat) → List Nat → (n : Nat) → Prop
  | _, [], _ => True
  | p, a :: l, n => a ≠ 0 ∧ prev a = p ∧ next a = l.headD n ∧ Segment next prev a l n

theorem headD_append (xs ys : List Nat) (n : Nat) :
    (xs ++ ys).headD n = xs.headD (ys.headD n) := by
  cases xs <;> rfl

theorem getLastD_cons' (a : Nat) (l : List Nat) (p : Nat) :
    (a :: l).getLastD p = l.getLastD a := by
  cases l <;> rfl

theorem getLastD_mem_or (l : List Nat) (p : Nat) : l.getLastD p ∈ l ∨ l = [] := by
  cases l with
  | nil => exact .inr rfl
  | cons a l =>
    refine .inl ?_
    rw [List.getLastD_eq_getLast?, List.getLast?_eq_some_getLast (List.cons_ne_nil a l)]
    exact List.getLast_mem _

theorem headD_mem_or (l : List Nat) (p : Nat) : l.headD p ∈ l ∨ l = [] := by
  cases l <;> simp

theorem segment_append : Segment next prev p (xs ++ ys) n ↔
    Segment next prev p xs (ys.headD n) ∧ Segment next prev (xs.getLastD p) ys n := by
  induction xs generalizing p with
  | nil => simp [Segment]
  | cons a xs ih =>
    simp only [List.cons_append, Segment, ih, headD_append, getLastD_cons', and_assoc]

theorem Segment.congr (segment : Segment next prev p l n)
    (sameNext : ∀ b ∈ l, next' b = next b) (samePrev : ∀ b ∈ l, prev' b = prev b) :
    Segment next' prev' p l n := by
  induction l generalizing p with
  | nil => trivial
  | cons a l ih =>
    obtain ⟨nonzero, back, forth, rest⟩ := segment
    exact ⟨nonzero, (samePrev a (.head _)).trans back, (sameNext a (.head _)).trans forth,
      ih rest (fun b inRest => sameNext b (.tail _ inRest))
        fun b inRest => samePrev b (.tail _ inRest)⟩

theorem Segment.ne_zero (segment : Segment next prev p l n) : ∀ b ∈ l, b ≠ 0 := by
  induction l generalizing p with
  | nil => simp
  | cons a l ih =>
    obtain ⟨nonzero, -, -, rest⟩ := segment
    intro b member
    rcases List.mem_cons.mp member with rfl | inRest
    · exact nonzero
    · exact ih rest b inRest

/-- Only the last node's successor changes. -/
theorem Segment.retarget (segment : Segment next prev p l n) (nodup : l.Nodup)
    (samePrev : ∀ b ∈ l, prev' b = prev b)
    (newNext : ∀ b ∈ l, next' b = if b = l.getLastD 0 then n' else next b) :
    Segment next' prev' p l n' := by
  induction l generalizing p with
  | nil => trivial
  | cons a l ih =>
    obtain ⟨nonzero, back, forth, rest⟩ := segment
    obtain ⟨fresh, nodup⟩ := List.nodup_cons.mp nodup
    refine ⟨nonzero, (samePrev a (.head _)).trans back, ?_, ?_⟩
    · rw [newNext a (.head _), getLastD_cons']
      cases l with
      | nil => simp
      | cons b l =>
        have other : a ≠ (b :: l).getLastD a := by
          rcases getLastD_mem_or (b :: l) a with member | empty
          · exact fun same => fresh (same ▸ member)
          · cases empty
        rw [if_neg other, forth]
        rfl
    · refine ih rest nodup (fun b inRest => samePrev b (.tail _ inRest)) fun b inRest => ?_
      rw [newNext b (.tail _ inRest), getLastD_cons']
      cases l with
      | nil => cases inRest
      | cons c l => rfl

/-- Only the first node's predecessor changes. -/
theorem Segment.resource {p' : Nat} (segment : Segment next prev p l n) (nodup : l.Nodup)
    (sameNext : ∀ b ∈ l, next' b = next b)
    (newPrev : ∀ b ∈ l, prev' b = if b = l.headD 0 then p' else prev b) :
    Segment next' prev' p' l n := by
  cases l with
  | nil => trivial
  | cons a l =>
    obtain ⟨nonzero, -, forth, rest⟩ := segment
    obtain ⟨fresh, -⟩ := List.nodup_cons.mp nodup
    refine ⟨nonzero, by simp [newPrev a (.head _)], (sameNext a (.head _)).trans forth,
      rest.congr (fun b inRest => sameNext b (.tail _ inRest)) fun b inRest => ?_⟩
    rw [newPrev b (.tail _ inRest), if_neg]
    rintro rfl
    exact fresh inRest

/-! ## Doubly linked lists -/

/-- The tables hold the list `l` from `head`, linked both ways and without repetition. -/
structure ListAt (next prev : Nat → Nat) (head : Nat) (l : List Nat) : Prop where
  nodup : l.Nodup
  head_eq : head = l.headD 0
  segment : Segment next prev 0 l 0

theorem ListAt.congr (list : ListAt next prev head l) (sameNext : ∀ b ∈ l, next' b = next b)
    (samePrev : ∀ b ∈ l, prev' b = prev b) : ListAt next' prev' head l :=
  ⟨list.nodup, list.head_eq, list.segment.congr sameNext samePrev⟩

theorem ListAt.ne_zero (list : ListAt next prev head l) {b : Nat} (member : b ∈ l) : b ≠ 0 :=
  list.segment.ne_zero b member

theorem ListAt.nil : ListAt next prev 0 [] := ⟨.nil, rfl, trivial⟩

/-- A node is linked in before the head. -/
theorem ListAt.push (list : ListAt next prev head l) (nonzero : a ≠ 0) (fresh : a ∉ l)
    (linked : next' a = head) (first : prev' a = 0) (sameNext : ∀ b ∈ l, next' b = next b)
    (newPrev : ∀ b ∈ l, prev' b = if b = head then a else prev b) :
    ListAt next' prev' a (a :: l) :=
  ⟨List.nodup_cons.mpr ⟨fresh, list.nodup⟩, rfl, nonzero, first, linked.trans list.head_eq,
    list.segment.resource list.nodup sameNext fun b member => by
      rw [newPrev b member, list.head_eq]⟩

/-- The neighbours of a node and the two parts of the list around it. -/
theorem ListAt.split (list : ListAt next prev head l) (member : a ∈ l) :
    ∃ xs ys, l = xs ++ a :: ys ∧ l.erase a = xs ++ ys ∧ prev a = xs.getLastD 0 ∧
      next a = ys.headD 0 ∧ Segment next prev 0 xs a ∧ Segment next prev a ys 0 := by
  obtain ⟨xs, ys, rfl⟩ := List.append_of_mem member
  obtain ⟨before, nonzero, back, forth, after⟩ := segment_append.mp list.segment
  have fresh : a ∉ xs := fun inFirst =>
    (List.nodup_append.mp list.nodup).2.2 a inFirst a (.head _) rfl
  refine ⟨xs, ys, rfl, ?_, back, forth, before, after⟩
  rw [List.erase_append_right _ fresh, List.erase_cons_head]

/-- A node is unlinked by joining its neighbours. -/
theorem ListAt.remove (list : ListAt next prev head l) (member : a ∈ l)
    (newNext : ∀ b ∈ l, b ≠ a → next' b = if b = prev a then next a else next b)
    (newPrev : ∀ b ∈ l, b ≠ a → prev' b = if b = next a then prev a else prev b)
    (newHead : head' = if prev a = 0 then next a else head) :
    ListAt next' prev' head' (l.erase a) := by
  obtain ⟨xs, ys, rfl, erased, back, forth, before, after⟩ := list.split member
  have nodup := list.nodup
  rw [List.nodup_append, List.nodup_cons] at nodup
  obtain ⟨nodupXs, ⟨freshYs, nodupYs⟩, apart⟩ := nodup
  have lastXs (b : Nat) (inYs : b ∈ ys) : b ≠ xs.getLastD 0 := by
    rcases getLastD_mem_or xs 0 with inXs | rfl
    · exact fun same => apart _ inXs _ (.tail _ inYs) same.symm
    · exact after.ne_zero b inYs
  have firstYs (b : Nat) (inXs : b ∈ xs) : b ≠ ys.headD 0 := by
    rcases headD_mem_or ys 0 with inYs | rfl
    · exact fun same => apart _ inXs _ (.tail _ inYs) same
    · exact before.ne_zero b inXs
  have otherXs (b : Nat) (inXs : b ∈ xs) : b ≠ a := fun same => apart b inXs a (.head _) same
  have otherYs (b : Nat) (inYs : b ∈ ys) : b ≠ a := fun same => freshYs (same ▸ inYs)
  rw [erased]
  refine ⟨List.nodup_append.mpr ⟨nodupXs, nodupYs, fun b inXs c inYs =>
    apart b inXs c (.tail _ inYs)⟩, ?_, segment_append.mpr ⟨?_, ?_⟩⟩
  · rw [newHead, list.head_eq, back, forth, headD_append, headD_append]
    cases xs with
    | nil => simp
    | cons c xs =>
      have nonzero : (c :: xs).getLastD 0 ≠ 0 := by
        rcases getLastD_mem_or (c :: xs) 0 with inXs | empty
        · exact before.ne_zero _ inXs
        · cases empty
      rw [if_neg nonzero]
      rfl
  · refine before.retarget nodupXs (fun b inXs => ?_) fun b inXs => ?_
    · rw [newPrev b (List.mem_append_left _ inXs) (otherXs b inXs), forth,
        if_neg (firstYs b inXs)]
    · rw [newNext b (List.mem_append_left _ inXs) (otherXs b inXs), back, forth]
  · refine after.resource nodupYs (fun b inYs => ?_) fun b inYs => ?_
    · rw [newNext b (List.mem_append_right _ (.tail _ inYs)) (otherYs b inYs), back,
        if_neg (lastXs b inYs)]
    · rw [newPrev b (List.mem_append_right _ (.tail _ inYs)) (otherYs b inYs), forth, back]

/-- A node is linked in between two parts of the list, either of which may be empty. -/
theorem ListAt.insert (list : ListAt next prev head (xs ++ ys)) (nonzero : a ≠ 0)
    (fresh : a ∉ xs ++ ys) (back : prev' a = xs.getLastD 0) (forth : next' a = ys.headD 0)
    (newNext : ∀ b ∈ xs ++ ys, next' b = if b = xs.getLastD 0 then a else next b)
    (newPrev : ∀ b ∈ xs ++ ys, prev' b = if b = ys.headD 0 then a else prev b)
    (newHead : head' = if xs = [] then a else head) :
    ListAt next' prev' head' (xs ++ a :: ys) := by
  obtain ⟨before, after⟩ := segment_append.mp list.segment
  obtain ⟨nodupXs, nodupYs, apart⟩ := List.nodup_append.mp list.nodup
  rw [List.mem_append, not_or] at fresh
  have lastXs (b : Nat) (inYs : b ∈ ys) : b ≠ xs.getLastD 0 := by
    rcases getLastD_mem_or xs 0 with inXs | rfl
    · exact fun same => apart _ inXs _ inYs same.symm
    · exact after.ne_zero b inYs
  have firstYs (b : Nat) (inXs : b ∈ xs) : b ≠ ys.headD 0 := by
    rcases headD_mem_or ys 0 with inYs | rfl
    · exact fun same => apart _ inXs _ inYs same
    · exact before.ne_zero b inXs
  refine ⟨List.nodup_append.mpr ⟨nodupXs, List.nodup_cons.mpr ⟨fresh.2, nodupYs⟩, ?_⟩, ?_,
    segment_append.mpr ⟨?_, nonzero, back, forth, ?_⟩⟩
  · intro b inXs c inRest
    rcases List.mem_cons.mp inRest with rfl | inYs
    · exact fun same => fresh.1 (same ▸ inXs)
    · exact apart b inXs c inYs
  · rw [newHead, list.head_eq]
    cases xs with
    | nil => simp
    | cons c xs => simp
  · refine before.retarget nodupXs (fun b inXs => ?_) fun b inXs => ?_
    · rw [newPrev b (List.mem_append_left _ inXs), if_neg (firstYs b inXs)]
    · rw [newNext b (List.mem_append_left _ inXs)]
      rfl
  · refine after.resource nodupYs (fun b inYs => ?_) fun b inYs => ?_
    · rw [newNext b (List.mem_append_right _ inYs), if_neg (lastXs b inYs)]
    · rw [newPrev b (List.mem_append_right _ inYs)]

/-- The tail after a node is unlinked. -/
theorem ListAt.getLastD_erase (list : ListAt next prev head l) (member : a ∈ l) :
    (l.erase a).getLastD 0 = if next a = 0 then prev a else l.getLastD 0 := by
  obtain ⟨xs, ys, rfl, erased, back, forth, -, after⟩ := list.split member
  rw [erased, back, forth]
  cases ys with
  | nil => simp
  | cons b ys =>
    have nonzero : b ≠ 0 := after.ne_zero b (.head _)
    simp [nonzero, List.getLastD_eq_getLast?, List.getLast?_append, List.getLast?_cons]

/-- The neighbours of a member are members or the end of the list. -/
theorem ListAt.next_mem (list : ListAt next prev head l) (member : a ∈ l) :
    next a = 0 ∨ next a ∈ l := by
  obtain ⟨xs, ys, rfl, -, -, forth, -, -⟩ := list.split member
  rcases headD_mem_or ys 0 with inYs | rfl
  · exact .inr (forth ▸ List.mem_append_right _ (.tail _ inYs))
  · exact .inl forth

/-- A node is not its own successor. -/
theorem ListAt.next_ne (list : ListAt next prev head l) (member : a ∈ l) : next a ≠ a := by
  have nonzero := list.ne_zero member
  obtain ⟨xs, ys, rfl, -, -, forth, -, -⟩ := list.split member
  have fresh := (List.nodup_cons.mp (List.nodup_append.mp list.nodup).2.1).1
  rw [forth]
  rcases headD_mem_or ys 0 with inYs | rfl
  · exact fun same => fresh (same ▸ inYs)
  · exact nonzero.symm

theorem ListAt.prev_mem (list : ListAt next prev head l) (member : a ∈ l) :
    prev a = 0 ∨ prev a ∈ l := by
  obtain ⟨xs, ys, rfl, -, back, -, -, -⟩ := list.split member
  rcases getLastD_mem_or xs 0 with inXs | rfl
  · exact .inr (back ▸ List.mem_append_left _ inXs)
  · exact .inl back

theorem ListAt.head_mem (list : ListAt next prev head l) (nonzero : head ≠ 0) : head ∈ l := by
  rcases headD_mem_or l 0 with member | rfl
  · exact list.head_eq ▸ member
  · exact absurd list.head_eq nonzero

/-- The last node has no successor, and no predecessor only when it is alone. -/
theorem ListAt.last (list : ListAt next prev head l) (nonempty : l.getLastD 0 ≠ 0) :
    l.getLastD 0 ∈ l ∧ next (l.getLastD 0) = 0 ∧ (prev (l.getLastD 0) = 0 → l.length = 1) := by
  rcases List.eq_nil_or_concat l with rfl | ⟨xs, a, rfl⟩
  · exact absurd rfl nonempty
  · obtain ⟨before, -, back, forth, -⟩ := segment_append.mp (List.concat_eq_append ▸ list.segment)
    have last : (xs.concat a).getLastD 0 = a := by simp
    rw [last]
    refine ⟨by simp, forth, fun first => ?_⟩
    rcases getLastD_mem_or xs 0 with inXs | rfl
    · exact absurd (back.symm.trans first) (before.ne_zero _ inXs)
    · rfl

end

/-! ## Families of lists in the same tables -/

section

variable {ι : Type} [DecidableEq ι] {next next' prev prev' : Nat → Nat} {head head' : ι → Nat}
  {lists : ι → List Nat} {i : ι} {a : Nat}

/-- The tables hold a list for every index, and no node is in two of them. -/
structure ListsAt (next prev : Nat → Nat) (head : ι → Nat) (lists : ι → List Nat) : Prop where
  list : ∀ i, ListAt next prev (head i) (lists i)
  apart : ∀ i j, ∀ n ∈ lists i, n ∈ lists j → i = j

omit [DecidableEq ι] in
theorem ListsAt.congr (family : ListsAt next prev head lists)
    (sameNext : ∀ i, ∀ b ∈ lists i, next' b = next b)
    (samePrev : ∀ i, ∀ b ∈ lists i, prev' b = prev b) (sameHead : ∀ i, head' i = head i) :
    ListsAt next' prev' head' lists where
  list i := sameHead i ▸ (family.list i).congr (sameNext i) (samePrev i)
  apart := family.apart

theorem mem_update_erase (family : ListsAt next prev head lists) (member : a ∈ lists i) {j : ι}
    {n : Nat} : n ∈ Function.update lists i ((lists i).erase a) j ↔ n ∈ lists j ∧ n ≠ a := by
  rcases eq_or_ne j i with rfl | other
  · rw [Function.update_self, (family.list j).nodup.mem_erase_iff, and_comm]
  · rw [Function.update_of_ne other]
    refine ⟨fun inList => ⟨inList, ?_⟩, And.left⟩
    rintro rfl
    exact other (family.apart _ _ _ inList member)

theorem mem_update_cons {j : ι} {n : Nat} :
    n ∈ Function.update lists i (a :: lists i) j ↔ n ∈ lists j ∨ j = i ∧ n = a := by
  rcases eq_or_ne j i with rfl | other
  · simp [or_comm]
  · simp [other]

/-- One list loses a node; its neighbours are in the same list, so the others stay. -/
theorem ListsAt.remove (family : ListsAt next prev head lists) (member : a ∈ lists i)
    (newNext : ∀ b ≠ 0, b ≠ a → next' b = if b = prev a then next a else next b)
    (newPrev : ∀ b ≠ 0, b ≠ a → prev' b = if b = next a then prev a else prev b)
    (newHead : head' i = if prev a = 0 then next a else head i)
    (sameHead : ∀ j ≠ i, head' j = head j) :
    ListsAt next' prev' head' (Function.update lists i ((lists i).erase a)) where
  list j := by
    rcases eq_or_ne j i with rfl | other
    · rw [Function.update_self]
      exact (family.list j).remove member
        (fun b inList => newNext b ((family.list j).ne_zero inList))
        (fun b inList => newPrev b ((family.list j).ne_zero inList)) newHead
    · rw [Function.update_of_ne other, sameHead j other]
      have notHere (b : Nat) (inList : b ∈ lists j) : b ∉ lists i := fun inOther =>
        other (family.apart _ _ _ inList inOther)
      have nonzero (b : Nat) (inList : b ∈ lists j) := (family.list j).ne_zero inList
      refine (family.list j).congr (fun b inList => ?_) fun b inList => ?_
      · rw [newNext b (nonzero b inList) fun same => notHere b inList (same ▸ member), if_neg]
        intro same
        rcases (family.list i).prev_mem member with zero | inOther
        · exact nonzero b inList (same.trans zero)
        · exact notHere b inList (same ▸ inOther)
      · rw [newPrev b (nonzero b inList) fun same => notHere b inList (same ▸ member), if_neg]
        intro same
        rcases (family.list i).next_mem member with zero | inOther
        · exact nonzero b inList (same.trans zero)
        · exact notHere b inList (same ▸ inOther)
  apart j k n inFirst inSecond :=
    family.apart j k n ((mem_update_erase family member).mp inFirst).1
      ((mem_update_erase family member).mp inSecond).1

/-- A node in none of the lists becomes the head of one. -/
theorem ListsAt.push (family : ListsAt next prev head lists) (nonzero : a ≠ 0)
    (fresh : ∀ j, a ∉ lists j) (linked : next' a = head i) (first : prev' a = 0)
    (sameNext : ∀ b ≠ 0, b ≠ a → next' b = next b)
    (newPrev : ∀ b ≠ 0, b ≠ a → prev' b = if b = head i then a else prev b)
    (newHead : head' i = a) (sameHead : ∀ j ≠ i, head' j = head j) :
    ListsAt next' prev' head' (Function.update lists i (a :: lists i)) where
  list j := by
    have nonzero' (b : Nat) (inList : b ∈ lists j) := (family.list j).ne_zero inList
    have notPushed (b : Nat) (inList : b ∈ lists j) : b ≠ a := fun same => fresh j (same ▸ inList)
    rcases eq_or_ne j i with rfl | other
    · rw [Function.update_self, newHead]
      exact (family.list j).push nonzero (fresh j) linked first
        (fun b inList => sameNext b (nonzero' b inList) (notPushed b inList))
        fun b inList => newPrev b (nonzero' b inList) (notPushed b inList)
    · rw [Function.update_of_ne other, sameHead j other]
      refine (family.list j).congr
        (fun b inList => sameNext b (nonzero' b inList) (notPushed b inList)) fun b inList => ?_
      rw [newPrev b (nonzero' b inList) (notPushed b inList), if_neg]
      intro same
      have inOther := (family.list i).head_mem (same ▸ nonzero' b inList)
      exact other (family.apart _ _ _ inList (same ▸ inOther))
  apart j k n inFirst inSecond := by
    rcases mem_update_cons.mp inFirst with inJ | ⟨rfl, rfl⟩ <;>
      rcases mem_update_cons.mp inSecond with inK | ⟨rfl, same⟩
    · exact family.apart j k n inJ inK
    · exact absurd (same ▸ inJ) (fresh j)
    · exact absurd inK (fresh k)
    · rfl

end

end PCemWeb.Lib
