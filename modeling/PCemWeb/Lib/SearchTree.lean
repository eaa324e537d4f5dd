import Mathlib.Data.List.Nodup
import Mathlib.Data.Tree.Basic
import Mathlib.Order.Lattice
import Mathlib.Tactic.Common

/-!
# Search trees with equal keys

The nodes of a tree are numbers from 1, and 0 is no node. Keys may repeat: those left of a node are
smaller and those right of it are not, so that a search for a key passes every node that has it. A
deleted node is replaced by `join`, whose result is in order because the nodes hung below the
leftmost one's right child were right of it before.
-/

namespace PCemWeb.Lib.SearchTree

/-! ## Trees of node numbers -/

/-- The nodes in order. -/
def nodes : BinaryTree Nat → List Nat
  | .nil => []
  | .node n l r => nodes l ++ n :: nodes r

/-- The root, or 0. -/
def root : BinaryTree Nat → Nat
  | .nil => 0
  | .node n _ _ => n

/-- The leftmost node, or 0. -/
def lowest : BinaryTree Nat → Nat
  | .nil => 0
  | .node n .nil _ => n
  | .node _ (.node m l r) _ => lowest (.node m l r)

/-- What hangs right of the leftmost node. -/
def lowestRight : BinaryTree Nat → BinaryTree Nat
  | .nil => .nil
  | .node _ .nil r => r
  | .node _ (.node m l r) _ => lowestRight (.node m l r)

/-- The tree without the leftmost node and what hangs right of it. -/
def cut : BinaryTree Nat → BinaryTree Nat
  | .nil => .nil
  | .node _ .nil _ => .nil
  | .node n (.node m l r) r' => .node n (cut (.node m l r)) r'

/-- The rightmost node, or 0. -/
def highest : BinaryTree Nat → Nat
  | .nil => 0
  | .node n _ .nil => n
  | .node _ _ (.node m l r) => highest (.node m l r)

/-- `s` hung right of the rightmost node. -/
def hang (s : BinaryTree Nat) : BinaryTree Nat → BinaryTree Nat
  | .nil => s
  | .node n l r => .node n l (hang s r)

/-- One tree from the two children of a node: the leftmost node of the right child is the new root,
what hung right of it stays there, and the remainder of the right child is hung below that. -/
def join : BinaryTree Nat → BinaryTree Nat → BinaryTree Nat
  | .nil, r => r
  | l, .nil => l
  | l, r => .node (lowest r) l (hang (cut r) (lowestRight r))

/-- `Replace s s' t t'`: `t'` is `t` with its subtree `s` replaced by `s'`. -/
inductive Replace (s s' : BinaryTree Nat) : BinaryTree Nat → BinaryTree Nat → Prop
  | here : Replace s s' s s'
  | left {n : Nat} {l l' r : BinaryTree Nat} : Replace s s' l l' →
      Replace s s' (.node n l r) (.node n l' r)
  | right {n : Nat} {l r r' : BinaryTree Nat} : Replace s s' r r' →
      Replace s s' (.node n l r) (.node n l r')

section

variable {s s' t t' l r : BinaryTree Nat} {n m : Nat}

@[simp] theorem mem_nodes_node : m ∈ nodes (.node n l r) ↔ m ∈ nodes l ∨ m = n ∨ m ∈ nodes r := by
  simp [nodes]

theorem nodes_eq_nil : nodes t = [] ↔ t = .nil := by
  cases t <;> simp [nodes]

theorem root_mem (nonempty : t ≠ .nil) : root t ∈ nodes t := by
  cases t with
  | nil => exact absurd rfl nonempty
  | node n l r => simp [root]

theorem ne_nil_of_mem (member : n ∈ nodes t) : t ≠ .nil := by
  rintro rfl
  cases member

theorem nodup_node (nodup : (nodes (.node n l r)).Nodup) :
    (nodes l).Nodup ∧ (nodes r).Nodup ∧ n ∉ nodes l ∧ n ∉ nodes r ∧
      ∀ m ∈ nodes l, m ∉ nodes r := by
  obtain ⟨nodupL, rest, apart⟩ := List.nodup_append.mp nodup
  obtain ⟨fresh, nodupR⟩ := List.nodup_cons.mp rest
  exact ⟨nodupL, nodupR, fun inL => apart n inL n (.head _) rfl, fresh,
    fun m inL inR => apart m inL m (.tail _ inR) rfl⟩

theorem nodes_hang : nodes (hang s t) = nodes t ++ nodes s := by
  induction t with
  | nil => rfl
  | node n l r _ ih => simp [hang, nodes, ih]

/-- The leftmost node comes first, then what hangs right of it, then the remainder. -/
theorem nodes_eq_lowest (nonempty : t ≠ .nil) :
    nodes t = lowest t :: (nodes (lowestRight t) ++ nodes (cut t)) := by
  induction t using lowest.induct with
  | case1 => exact absurd rfl nonempty
  | case2 n r => simp [nodes, lowest, lowestRight, cut]
  | case3 n m l r r' ih =>
    rw [nodes, ih (by simp)]
    simp [nodes, lowest, lowestRight, cut]

theorem lowest_mem (nonempty : t ≠ .nil) : lowest t ∈ nodes t :=
  nodes_eq_lowest nonempty ▸ .head _

theorem mem_of_mem_lowestRight (member : m ∈ nodes (lowestRight t)) : m ∈ nodes t := by
  cases t with
  | nil => exact member
  | node n l r =>
    rw [nodes_eq_lowest (by simp)]
    exact .tail _ (List.mem_append_left _ member)

theorem mem_of_mem_cut (member : m ∈ nodes (cut t)) : m ∈ nodes t := by
  cases t with
  | nil => exact member
  | node n l r =>
    rw [nodes_eq_lowest (by simp)]
    exact .tail _ (List.mem_append_right _ member)

theorem nodes_join : nodes (join l r) = nodes l ++ nodes r := by
  cases l with
  | nil => rfl
  | node n l₁ l₂ =>
    cases r with
    | nil => simp [join, nodes]
    | node m r₁ r₂ =>
      rw [nodes_eq_lowest (t := .node m r₁ r₂) (by simp)]
      simp [join, nodes, nodes_hang]

theorem join_of_ne_nil (nonemptyL : l ≠ .nil) (nonemptyR : r ≠ .nil) :
    join l r = .node (lowest r) l (hang (cut r) (lowestRight r)) := by
  cases l with
  | nil => exact absurd rfl nonemptyL
  | node => cases r with
    | nil => exact absurd rfl nonemptyR
    | node => rfl

theorem hang_nil : hang .nil t = t := by
  induction t with
  | nil => rfl
  | node n l r _ ih => rw [hang, ih]

theorem highest_mem (nonempty : t ≠ .nil) : highest t ∈ nodes t := by
  induction t using highest.induct with
  | case1 => exact absurd rfl nonempty
  | case2 n l => simp [highest]
  | case3 n l m l' r' ih =>
    rw [highest, mem_nodes_node]
    exact .inr (.inr (ih (by simp)))

theorem highest_node (nonempty : r ≠ .nil) : highest (.node n l r) = highest r := by
  cases r with
  | nil => exact absurd rfl nonempty
  | node => rfl

theorem Replace.nodes_eq (replace : Replace s s' t t') :
    ∃ xs ys, nodes t = xs ++ nodes s ++ ys ∧ nodes t' = xs ++ nodes s' ++ ys := by
  induction replace with
  | here => exact ⟨[], [], by simp, by simp⟩
  | @left n l l' r _ ih =>
    obtain ⟨xs, ys, before, after⟩ := ih
    exact ⟨xs, ys ++ n :: nodes r, by simp [nodes, before], by simp [nodes, after]⟩
  | @right n l r r' _ ih =>
    obtain ⟨xs, ys, before, after⟩ := ih
    exact ⟨nodes l ++ n :: xs, ys, by simp [nodes, before], by simp [nodes, after]⟩

theorem Replace.mem (replace : Replace s s' t t') (member : m ∈ nodes s) : m ∈ nodes t := by
  obtain ⟨xs, ys, before, -⟩ := replace.nodes_eq
  simp [before, member]

/-- Joining the children of a node takes only that node out. -/
theorem Replace.nodes_erase (replace : Replace (.node n l r) (join l r) t t')
    (nodup : (nodes t).Nodup) : nodes t' = (nodes t).erase n := by
  obtain ⟨xs, ys, before, after⟩ := replace.nodes_eq
  have split : nodes t = (xs ++ nodes l) ++ n :: (nodes r ++ ys) := by simp [before, nodes]
  have fresh : n ∉ xs ++ nodes l := fun member =>
    (List.nodup_append.mp (split ▸ nodup)).2.2 n member n (.head _) rfl
  rw [split, List.erase_append_right _ fresh, List.erase_cons_head, after, nodes_join]
  simp

theorem Replace.nodup (replace : Replace s s' t t') (nodup : (nodes t).Nodup) :
    (nodes s).Nodup := by
  obtain ⟨xs, ys, before, -⟩ := replace.nodes_eq
  rw [before] at nodup
  exact (List.nodup_append.mp (List.nodup_append.mp nodup).1).2.1

theorem Replace.length_le (replace : Replace s s' t t') :
    (nodes s).length ≤ (nodes t).length := by
  obtain ⟨xs, ys, before, -⟩ := replace.nodes_eq
  simp only [before, List.length_append]
  omega

/-- The subtree at a node can be replaced by any other. -/
theorem exists_replace (member : n ∈ nodes t) :
    ∃ l r, ∀ s', ∃ t', Replace (.node n l r) s' t t' := by
  induction t with
  | nil => cases member
  | node m l r ihL ihR =>
    rcases mem_nodes_node.mp member with inL | rfl | inR
    · obtain ⟨l₁, r₁, replace⟩ := ihL inL
      refine ⟨l₁, r₁, fun s' => ?_⟩
      obtain ⟨l', inner⟩ := replace s'
      exact ⟨_, inner.left⟩
    · exact ⟨l, r, fun s' => ⟨s', .here⟩⟩
    · obtain ⟨l₁, r₁, replace⟩ := ihR inR
      refine ⟨l₁, r₁, fun s' => ?_⟩
      obtain ⟨r', inner⟩ := replace s'
      exact ⟨_, inner.right⟩

/-- The root changes only when the whole tree is replaced. -/
theorem Replace.root_eq (replace : Replace s s' t t') (nodup : (nodes t).Nodup)
    (nonempty : s ≠ .nil) : root t' = if root t = root s then root s' else root t := by
  cases replace with
  | here => simp
  | @left n l l' r inner =>
    have inL : root s ∈ nodes l := inner.mem (root_mem nonempty)
    have fresh := (nodup_node nodup).2.2.1
    exact (if_neg fun (same : n = root s) => fresh (same ▸ inL)).symm
  | @right n l r r' inner =>
    have inR : root s ∈ nodes r := inner.mem (root_mem nonempty)
    have fresh := (nodup_node nodup).2.2.2.1
    exact (if_neg fun (same : n = root s) => fresh (same ▸ inR)).symm

end

/-! ## Search order -/

section

variable {α : Type} [LinearOrder α] (key : Nat → α)

/-- Left of every node the keys are smaller, right of it they are not. -/
def Ordered : BinaryTree Nat → Prop
  | .nil => True
  | .node n l r => (∀ m ∈ nodes l, key m < key n) ∧ (∀ m ∈ nodes r, key n ≤ key m) ∧
      Ordered l ∧ Ordered r

/-- A new leaf, right of the nodes with its key. -/
def addLeaf (n : Nat) : BinaryTree Nat → BinaryTree Nat
  | .nil => .node n .nil .nil
  | .node m l r => if key n < key m then .node m (addLeaf n l) r else .node m l (addLeaf n r)

/-- The parent of the new leaf, `p` being the parent of the tree. -/
def leafParent (n : Nat) : (p : Nat) → BinaryTree Nat → Nat
  | p, .nil => p
  | _, .node m l r => if key n < key m then leafParent n m l else leafParent n m r

/-- The first node on the way to key `a` that has it and passes the test, or 0. -/
def search (a : α) (test : Nat → Bool) : BinaryTree Nat → Nat
  | .nil => 0
  | .node m l r =>
    if a = key m ∧ test m then m else if a < key m then search a test l else search a test r

variable {key} {s s' t t' l r : BinaryTree Nat} {n m p : Nat} {a : α} {test : Nat → Bool}

theorem Ordered.congr {key' : Nat → α} (ordered : Ordered key t)
    (same : ∀ m ∈ nodes t, key' m = key m) : Ordered key' t := by
  induction t with
  | nil => trivial
  | node n l r ihL ihR =>
    obtain ⟨smaller, greater, orderedL, orderedR⟩ := ordered
    have sameL (m : Nat) (inL : m ∈ nodes l) := same m (mem_nodes_node.mpr (.inl inL))
    have sameR (m : Nat) (inR : m ∈ nodes r) := same m (mem_nodes_node.mpr (.inr (.inr inR)))
    have sameN := same n (by simp)
    refine ⟨fun m inL => ?_, fun m inR => ?_, ihL orderedL sameL, ihR orderedR sameR⟩
    · rw [sameL m inL, sameN]
      exact smaller m inL
    · rw [sameR m inR, sameN]
      exact greater m inR

theorem leafParent_mem : leafParent key n p t = p ∧ t = .nil ∨
    leafParent key n p t ∈ nodes t := by
  induction t generalizing p with
  | nil => exact .inl ⟨rfl, rfl⟩
  | node m l r ihL ihR =>
    rw [leafParent]
    refine .inr (mem_nodes_node.mpr ?_)
    split
    · exact ihL.elim (fun above => .inr (.inl above.1)) .inl
    · exact .inr (ihR.imp_left And.left)

theorem root_addLeaf (nonempty : t ≠ .nil) : root (addLeaf key n t) = root t := by
  cases t with
  | nil => exact absurd rfl nonempty
  | node m l r =>
    rw [SearchTree.addLeaf]
    split <;> rfl

theorem mem_addLeaf : m ∈ nodes (addLeaf key n t) ↔ m = n ∨ m ∈ nodes t := by
  induction t with
  | nil => simp [addLeaf, nodes]
  | node k l r ihL ihR =>
    rw [SearchTree.addLeaf]
    split
    · simp only [mem_nodes_node, ihL]
      tauto
    · simp only [mem_nodes_node, ihR]
      tauto

theorem nodup_addLeaf (nodup : (nodes t).Nodup) (fresh : n ∉ nodes t) :
    (nodes (addLeaf key n t)).Nodup := by
  induction t with
  | nil => simp [addLeaf, nodes]
  | node k l r ihL ihR =>
    obtain ⟨nodupL, nodupR, freshL, freshR, apart⟩ := nodup_node nodup
    simp only [mem_nodes_node, not_or] at fresh
    obtain ⟨newL, other, newR⟩ := fresh
    rw [SearchTree.addLeaf]
    split
    · refine List.nodup_append.mpr ⟨ihL nodupL newL, List.nodup_cons.mpr ⟨freshR, nodupR⟩, ?_⟩
      rintro b inL c inRest rfl
      rcases mem_addLeaf.mp inL with rfl | inL <;> rcases List.mem_cons.mp inRest with rfl | inR
      · exact other rfl
      · exact newR inR
      · exact freshL inL
      · exact apart b inL inR
    · refine List.nodup_append.mpr ⟨nodupL, List.nodup_cons.mpr ⟨?_, ihR nodupR newR⟩, ?_⟩
      · intro inR
        rcases mem_addLeaf.mp inR with rfl | inR
        · exact other rfl
        · exact freshR inR
      · rintro b inL c inRest rfl
        rcases List.mem_cons.mp inRest with rfl | inR
        · exact freshL inL
        · rcases mem_addLeaf.mp inR with rfl | inR
          · exact newL inL
          · exact apart b inL inR

theorem Ordered.addLeaf (ordered : Ordered key t) : Ordered key (addLeaf key n t) := by
  induction t with
  | nil => simp [SearchTree.addLeaf, Ordered, nodes]
  | node k l r ihL ihR =>
    obtain ⟨smaller, greater, orderedL, orderedR⟩ := ordered
    rw [SearchTree.addLeaf]
    split
    case isTrue less =>
      refine ⟨fun m inL => ?_, greater, ihL orderedL, orderedR⟩
      rcases mem_addLeaf.mp inL with rfl | inL
      · exact less
      · exact smaller m inL
    case isFalse notLess =>
      refine ⟨smaller, fun m inR => ?_, orderedL, ihR orderedR⟩
      rcases mem_addLeaf.mp inR with rfl | inR
      · exact not_lt.mp notLess
      · exact greater m inR

theorem Ordered.hang (orderedS : Ordered key s) (orderedT : Ordered key t)
    (above : ∀ m ∈ nodes t, ∀ k ∈ nodes s, key m ≤ key k) : Ordered key (hang s t) := by
  induction t with
  | nil => exact orderedS
  | node n l r _ ih =>
    obtain ⟨smaller, greater, orderedL, orderedR⟩ := orderedT
    refine ⟨smaller, fun m inHung => ?_, orderedL, ih orderedR fun m inR => above m (by simp [inR])⟩
    rw [nodes_hang, List.mem_append] at inHung
    rcases inHung with inR | inS
    · exact greater m inR
    · exact above n (by simp) m inS

/-- The leftmost node and the two parts it leaves are in order. -/
theorem Ordered.cut (ordered : Ordered key t) :
    Ordered key (lowestRight t) ∧ Ordered key (cut t) ∧
      (∀ m ∈ nodes (lowestRight t), key (lowest t) ≤ key m ∧ ∀ k ∈ nodes (cut t), key m ≤ key k) ∧
      ∀ k ∈ nodes (cut t), key (lowest t) ≤ key k := by
  induction t using lowest.induct with
  | case1 => simp [lowestRight, SearchTree.cut, Ordered, nodes]
  | case2 n r =>
    obtain ⟨-, greater, -, orderedR⟩ := ordered
    refine ⟨orderedR, trivial, fun m inR => ⟨greater m inR, ?_⟩, ?_⟩ <;>
      simp [SearchTree.cut, nodes]
  | case3 n m l r r' ih =>
    obtain ⟨smaller, greater, orderedL, orderedR⟩ := ordered
    obtain ⟨orderedLow, orderedCut, lowBelow, lowestBelow⟩ := ih orderedL
    have below (k : Nat) (inL : k ∈ nodes (.node m l r)) (k' : Nat)
        (inRest : k' = n ∨ k' ∈ nodes r') : key k ≤ key k' := by
      rcases inRest with rfl | inR
      · exact le_of_lt (smaller k inL)
      · exact le_trans (le_of_lt (smaller k inL)) (greater k' inR)
    have lowIn : lowest (.node m l r) ∈ nodes (.node m l r) := lowest_mem (by simp)
    refine ⟨orderedLow,
      ⟨fun k inCut => smaller k (mem_of_mem_cut inCut), greater, orderedCut, orderedR⟩,
      fun k inLow => ⟨(lowBelow k inLow).1, fun k' inCut => ?_⟩, fun k inCut => ?_⟩
    · rcases mem_nodes_node.mp inCut with inCut | inRest
      · exact (lowBelow k inLow).2 k' inCut
      · exact below k (mem_of_mem_lowestRight inLow) k' inRest
    · rcases mem_nodes_node.mp inCut with inCut | inRest
      · exact lowestBelow k inCut
      · exact below _ lowIn k inRest

theorem Ordered.join (ordered : Ordered key (.node n l r)) : Ordered key (join l r) := by
  obtain ⟨smaller, greater, orderedL, orderedR⟩ := ordered
  cases l with
  | nil => exact orderedR
  | node k l₁ l₂ =>
    cases r with
    | nil => exact orderedL
    | node m r₁ r₂ =>
      obtain ⟨orderedLow, orderedCut, lowBelow, lowestBelow⟩ := orderedR.cut
      have lowIn : lowest (.node m r₁ r₂) ∈ nodes (.node m r₁ r₂) := lowest_mem (by simp)
      refine ⟨fun b inL => lt_of_lt_of_le (smaller b inL) (greater _ lowIn), fun b inHung => ?_,
        orderedL, orderedCut.hang orderedLow fun b inLow => (lowBelow b inLow).2⟩
      rw [nodes_hang, List.mem_append] at inHung
      rcases inHung with inLow | inCut
      · exact (lowBelow b inLow).1
      · exact lowestBelow b inCut

/-- A subtree may be replaced by an ordered tree of some of its nodes. -/
theorem Ordered.replace (ordered : Ordered key t) (replace : Replace s s' t t')
    (orderedS : Ordered key s → Ordered key s') (fewer : ∀ m ∈ nodes s', m ∈ nodes s) :
    Ordered key t' := by
  have fewer' {t t' : BinaryTree Nat} (replace : Replace s s' t t') (m : Nat)
      (inNew : m ∈ nodes t') : m ∈ nodes t := by
    obtain ⟨xs, ys, before, after⟩ := replace.nodes_eq
    simp only [before, after, List.mem_append] at inNew ⊢
    rcases inNew with (inXs | inS) | inYs
    · exact .inl (.inl inXs)
    · exact .inl (.inr (fewer m inS))
    · exact .inr inYs
  induction replace with
  | here => exact orderedS ordered
  | left inner ih =>
    obtain ⟨smaller, greater, orderedL, orderedR⟩ := ordered
    exact ⟨fun m inL => smaller m (fewer' inner m inL), greater, ih orderedL, orderedR⟩
  | right inner ih =>
    obtain ⟨smaller, greater, orderedL, orderedR⟩ := ordered
    exact ⟨smaller, fun m inR => greater m (fewer' inner m inR), orderedL, ih orderedR⟩

/-- A search finds nothing, or a node with the key that passes the test. -/
theorem search_sound : search key a test t = 0 ∨
    search key a test t ∈ nodes t ∧ key (search key a test t) = a ∧
      test (search key a test t) = true := by
  induction t with
  | nil => exact .inl rfl
  | node m l r ihL ihR =>
    rw [search]
    split
    case isTrue found => exact .inr ⟨by simp, found.1.symm, found.2⟩
    case isFalse =>
      split
      · exact ihL.imp_right fun ⟨inL, same, passes⟩ => ⟨by simp [inL], same, passes⟩
      · exact ihR.imp_right fun ⟨inR, same, passes⟩ => ⟨by simp [inR], same, passes⟩

/-- A search does not miss a node: equal keys are all on its way. -/
theorem Ordered.search_complete (ordered : Ordered key t) (member : m ∈ nodes t)
    (same : key m = a) (passes : test m = true) (nonzero : ∀ k ∈ nodes t, k ≠ 0) :
    search key a test t ≠ 0 := by
  induction t with
  | nil => cases member
  | node n l r ihL ihR =>
    obtain ⟨smaller, greater, orderedL, orderedR⟩ := ordered
    rw [search]
    split
    case isTrue => exact nonzero n (by simp)
    case isFalse miss =>
      split
      case isTrue less =>
        rcases mem_nodes_node.mp member with inL | rfl | inR
        · exact ihL orderedL inL fun k inL => nonzero k (by simp [inL])
        · exact absurd (same ▸ less) (lt_irrefl _)
        · exact absurd (same ▸ greater m inR) (not_le_of_gt less)
      case isFalse notLess =>
        rcases mem_nodes_node.mp member with inL | rfl | inR
        · exact absurd (same ▸ smaller m inL) notLess
        · exact absurd ⟨same.symm, passes⟩ miss
        · exact ihR orderedR inR fun k inR => nonzero k (by simp [inR])

end

end PCemWeb.Lib.SearchTree
