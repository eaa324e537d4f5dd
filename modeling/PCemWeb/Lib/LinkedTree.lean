import PCemWeb.Lib.SearchTree

/-!
# Search trees in arrays

A tree lives in tables of parents, left children and right children and in the number of its root.
`Linked` reads a tree out of the tables and checks the parent link of every node. A write of one
link is described by what it does to the trees that hold the node, and trees that do not hold it
stay as they are, so that a program is followed write by write.
-/

namespace PCemWeb.Lib.SearchTree

/-! ## Linked trees -/

/-- The link tables. -/
@[ext]
structure Links where
  parent : Nat → Nat
  left : Nat → Nat
  right : Nat → Nat

/-- The tables hold the tree, `p` being the parent of its root. -/
def Linked (k : Links) : (p : Nat) → BinaryTree Nat → Prop
  | _, .nil => True
  | p, .node n l r => n ≠ 0 ∧ k.parent n = p ∧ k.left n = root l ∧ k.right n = root r ∧
      Linked k n l ∧ Linked k n r

/-- The links of a node are the same. -/
structure Links.Same (k k' : Links) (n : Nat) : Prop where
  parent : k'.parent n = k.parent n
  left : k'.left n = k.left n
  right : k'.right n = k.right n

section

variable {k k' : Links} {s s' t t' l r : BinaryTree Nat} {n m p p' : Nat}

theorem Linked.congr (linked : Linked k p t) (same : ∀ b ∈ nodes t, k.Same k' b) :
    Linked k' p t := by
  induction t generalizing p with
  | nil => trivial
  | node n l r ihL ihR =>
    obtain ⟨nonzero, parent, left, right, linkedL, linkedR⟩ := linked
    have sameN := same n (by simp)
    exact ⟨nonzero, sameN.parent.trans parent, sameN.left.trans left, sameN.right.trans right,
      ihL linkedL fun b inL => same b (by simp [inL]),
      ihR linkedR fun b inR => same b (by simp [inR])⟩

theorem Linked.ne_zero (linked : Linked k p t) : ∀ b ∈ nodes t, b ≠ 0 := by
  induction t generalizing p with
  | nil => simp [nodes]
  | node n l r ihL ihR =>
    obtain ⟨nonzero, -, -, -, linkedL, linkedR⟩ := linked
    intro b member
    rcases mem_nodes_node.mp member with inL | rfl | inR
    · exact ihL linkedL b inL
    · exact nonzero
    · exact ihR linkedR b inR

theorem Linked.parent_root (linked : Linked k p t) (nonempty : t ≠ .nil) :
    k.parent (root t) = p := by
  cases t with
  | nil => exact absurd rfl nonempty
  | node n l r => exact linked.2.1

theorem Linked.root_eq_zero (linked : Linked k p t) : root t = 0 ↔ t = .nil := by
  cases t with
  | nil => exact ⟨fun _ => rfl, fun _ => rfl⟩
  | node n l r => exact ⟨fun zero => absurd zero linked.1, fun empty => by cases empty⟩

theorem Linked.root_ne (linked : Linked k p t) (nonzero : n ≠ 0) (fresh : n ∉ nodes t) :
    root t ≠ n := by
  rintro rfl
  exact fresh (root_mem fun empty => nonzero (linked.root_eq_zero.mpr empty))

/-- The parent of a node is a node with it as a child, or the parent of the tree. -/
theorem Linked.parent_mem (linked : Linked k p t) (member : n ∈ nodes t) :
    n = root t ∧ k.parent n = p ∨
      k.parent n ∈ nodes t ∧ (k.left (k.parent n) = n ∨ k.right (k.parent n) = n) := by
  induction t generalizing p with
  | nil => cases member
  | node m l r ihL ihR =>
    obtain ⟨nonzero, parent, left, right, linkedL, linkedR⟩ := linked
    rcases mem_nodes_node.mp member with inL | rfl | inR
    · rcases ihL linkedL inL with ⟨isRoot, above⟩ | ⟨inside, child⟩
      · exact .inr ⟨by simp [above], .inl (above ▸ left.trans isRoot.symm)⟩
      · exact .inr ⟨by simp [inside], child⟩
    · exact .inl ⟨rfl, parent⟩
    · rcases ihR linkedR inR with ⟨isRoot, above⟩ | ⟨inside, child⟩
      · exact .inr ⟨by simp [above], .inr (above ▸ right.trans isRoot.symm)⟩
      · exact .inr ⟨by simp [inside], child⟩

/-! ## Writes -/

def Links.setParent (k : Links) (n v : Nat) : Links :=
  { k with parent := Function.update k.parent n v }

def Links.setLeft (k : Links) (n v : Nat) : Links :=
  { k with left := Function.update k.left n v }

def Links.setRight (k : Links) (n v : Nat) : Links :=
  { k with right := Function.update k.right n v }

section

variable {v : Nat}

@[simp] theorem Links.setParent_left : (k.setParent n v).left = k.left := rfl

@[simp] theorem Links.setParent_right : (k.setParent n v).right = k.right := rfl

@[simp] theorem Links.setLeft_parent : (k.setLeft n v).parent = k.parent := rfl

@[simp] theorem Links.setLeft_right : (k.setLeft n v).right = k.right := rfl

@[simp] theorem Links.setRight_parent : (k.setRight n v).parent = k.parent := rfl

@[simp] theorem Links.setRight_left : (k.setRight n v).left = k.left := rfl

end

/-- Node `a`'s child `old` becomes `new`. -/
def Links.putChild (k : Links) (a old new : Nat) : Links where
  parent := k.parent
  left b := if b = a ∧ k.left b = old then new else k.left b
  right b := if b = a ∧ k.right b = old then new else k.right b

/-- The two links are looked at one after the other. -/
theorem Links.putChild_eq {a old new : Nat} : k.putChild a old new =
    if k.right a = old then (if k.left a = old then k.setLeft a new else k).setRight a new
    else if k.left a = old then k.setLeft a new else k := by
  split_ifs with isRight isLeft isLeft <;> ext b <;> rcases eq_or_ne b a with rfl | other <;>
    simp [Links.putChild, Links.setLeft, Links.setRight, *]

theorem Links.Same.refl : k.Same k n := ⟨rfl, rfl, rfl⟩

theorem Links.Same.trans {k'' : Links} (first : k.Same k' n) (second : k'.Same k'' n) :
    k.Same k'' n :=
  ⟨second.parent.trans first.parent, second.left.trans first.left,
    second.right.trans first.right⟩

theorem Links.same_setParent {v : Nat} (other : m ≠ n) : k.Same (k.setParent n v) m :=
  ⟨Function.update_of_ne other .., rfl, rfl⟩

theorem Links.same_setLeft {v : Nat} (other : m ≠ n) : k.Same (k.setLeft n v) m :=
  ⟨rfl, Function.update_of_ne other .., rfl⟩

theorem Links.same_setRight {v : Nat} (other : m ≠ n) : k.Same (k.setRight n v) m :=
  ⟨rfl, rfl, Function.update_of_ne other ..⟩

theorem Links.same_putChild {old new : Nat} (other : m ≠ n) : k.Same (k.putChild n old new) m :=
  ⟨rfl, if_neg fun both => other both.1, if_neg fun both => other both.1⟩

theorem Linked.setParent_of_not_mem {v : Nat} (linked : Linked k p t) (fresh : n ∉ nodes t) :
    Linked (k.setParent n v) p t :=
  linked.congr fun _ member => Links.same_setParent (ne_of_mem_of_not_mem member fresh)

theorem Linked.setLeft_of_not_mem {v : Nat} (linked : Linked k p t) (fresh : n ∉ nodes t) :
    Linked (k.setLeft n v) p t :=
  linked.congr fun _ member => Links.same_setLeft (ne_of_mem_of_not_mem member fresh)

theorem Linked.setRight_of_not_mem {v : Nat} (linked : Linked k p t) (fresh : n ∉ nodes t) :
    Linked (k.setRight n v) p t :=
  linked.congr fun _ member => Links.same_setRight (ne_of_mem_of_not_mem member fresh)

/-- The root is given another parent. -/
theorem Linked.setParent_root (linked : Linked k p t) (nodup : (nodes t).Nodup) :
    Linked (k.setParent (root t) p') p' t := by
  cases t with
  | nil => trivial
  | node n l r =>
    obtain ⟨nonzero, -, left, right, linkedL, linkedR⟩ := linked
    obtain ⟨-, -, freshL, freshR, -⟩ := nodup_node nodup
    exact ⟨nonzero, Function.update_self .., left, right, linkedL.setParent_of_not_mem freshL,
      linkedR.setParent_of_not_mem freshR⟩

/-- A tree is hung right of the rightmost node. -/
theorem Linked.setRight_highest (linked : Linked k p t) (linkedS : Linked k (highest t) s)
    (nodup : (nodes t).Nodup) (nonempty : t ≠ .nil) (fresh : highest t ∉ nodes s) :
    Linked (k.setRight (highest t) (root s)) p (hang s t) := by
  induction t using highest.induct generalizing p with
  | case1 => exact absurd rfl nonempty
  | case2 n l =>
    obtain ⟨nonzero, parent, left, -, linkedL, -⟩ := linked
    obtain ⟨-, -, freshL, -, -⟩ := nodup_node nodup
    exact ⟨nonzero, parent, left, Function.update_self .., linkedL.setRight_of_not_mem freshL,
      linkedS.setRight_of_not_mem fresh⟩
  | case3 n l m l' r' ih =>
    obtain ⟨nonzero, parent, left, right, linkedL, linkedR⟩ := linked
    obtain ⟨-, nodupR, -, freshR, apart⟩ := nodup_node nodup
    have inside : highest (.node m l' r') ∈ nodes (.node m l' r') := highest_mem (by simp)
    have other : n ≠ highest (.node m l' r') := fun same => freshR (same ▸ inside)
    exact ⟨nonzero, parent, left, (Function.update_of_ne other ..).trans right,
      linkedL.setRight_of_not_mem fun inL => apart _ inL inside,
      ih linkedR linkedS nodupR (by simp) fresh⟩

/-- The leftmost node has no left child, and its right child stays its own. -/
theorem Linked.lowest (linked : Linked k p t) (nonempty : t ≠ .nil) :
    k.left (lowest t) = 0 ∧ k.right (lowest t) = root (lowestRight t) ∧
      Linked k (lowest t) (lowestRight t) := by
  induction t using lowest.induct generalizing p with
  | case1 => exact absurd rfl nonempty
  | case2 n r => exact ⟨linked.2.2.1, linked.2.2.2.1, linked.2.2.2.2.2⟩
  | case3 n m l r r' ih => exact ih linked.2.2.2.2.1 (by simp)

/-- The leftmost node is the root, or its parent is in the remainder. -/
theorem Linked.parent_lowest (linked : Linked k p t) (nonempty : t ≠ .nil) :
    SearchTree.lowest t = root t ∧ cut t = .nil ∨
      root (cut t) = root t ∧ k.parent (SearchTree.lowest t) ∈ nodes (cut t) := by
  induction t using SearchTree.lowest.induct generalizing p with
  | case1 => exact absurd rfl nonempty
  | case2 n r => exact .inl ⟨rfl, rfl⟩
  | case3 n m l r r' ih =>
    obtain ⟨-, -, left, -, linkedL, -⟩ := linked
    refine .inr ⟨rfl, ?_⟩
    rcases ih linkedL (by simp) with ⟨isRoot, -⟩ | ⟨-, inside⟩
    · have parent := linkedL.parent_root (by simp)
      rw [← isRoot] at parent
      simp [SearchTree.lowest, SearchTree.cut, parent]
    · simp [SearchTree.lowest, SearchTree.cut, inside]

/-- The leftmost node is cut off. -/
theorem Linked.setLeft_parent_lowest (linked : Linked k p t) (nodup : (nodes t).Nodup) :
    Linked (k.setLeft (k.parent (SearchTree.lowest t)) 0) p (cut t) := by
  induction t using SearchTree.lowest.induct generalizing p with
  | case1 => trivial
  | case2 n r => trivial
  | case3 n m l r r' ih =>
    obtain ⟨nonzero, parent, left, right, linkedL, linkedR⟩ := linked
    obtain ⟨nodupL, -, freshL, freshR, apart⟩ := nodup_node nodup
    rcases linkedL.parent_lowest (by simp) with ⟨isRoot, empty⟩ | ⟨sameRoot, inside⟩
    · have above : k.parent (SearchTree.lowest (.node m l r)) = n :=
        isRoot ▸ linkedL.parent_root (by simp)
      rw [SearchTree.lowest, SearchTree.cut, above, empty]
      exact ⟨nonzero, parent, Function.update_self .., right, trivial,
        linkedR.setLeft_of_not_mem freshR⟩
    · have inL := mem_of_mem_cut inside
      rw [SearchTree.lowest, SearchTree.cut]
      refine ⟨nonzero, parent, ?_, right, ih linkedL nodupL,
        linkedR.setLeft_of_not_mem fun inR => apart _ inL inR⟩
      rw [sameRoot, ← left]
      exact Function.update_of_ne (fun same : n = _ => freshL (same ▸ inL)) ..

/-- A subtree is replaced when its parent is given the new root and the rest stays. -/
theorem Linked.replace (linked : Linked k p t) (replace : Replace s s' t t')
    (nodup : (nodes t).Nodup) (nonempty : s ≠ .nil) (inside : Linked k' (k.parent (root s)) s')
    (outside : ∀ b ∈ nodes t, b ∉ nodes s →
      (k.putChild (k.parent (root s)) (root s) (root s')).Same k' b) : Linked k' p t' := by
  induction replace generalizing p with
  | here => exact linked.parent_root nonempty ▸ inside
  | @left n l l' r inner ih =>
    obtain ⟨nonzero, parent, left, right, linkedL, linkedR⟩ := linked
    obtain ⟨nodupL, -, freshL, freshR, apart⟩ := nodup_node nodup
    have rootIn : root s ∈ nodes l := inner.mem (root_mem nonempty)
    have sameN := outside n (by simp) fun inS => freshL (inner.mem inS)
    refine ⟨nonzero, sameN.parent.trans parent, ?_, ?_, ih linkedL nodupL fun b inL =>
      outside b (by simp [inL]), linkedR.congr fun b inR => ?_⟩
    · rw [inner.root_eq nodupL nonempty, sameN.left, ← left]
      refine if_congr (and_iff_right_of_imp fun same => ?_) rfl rfl
      rw [← same, left, linkedL.parent_root (ne_nil_of_mem rootIn)]
    · rw [sameN.right, ← right]
      refine if_neg fun both => ?_
      exact linkedR.root_ne (linkedL.ne_zero _ rootIn) (apart _ rootIn) (right ▸ both.2)
    · refine (Links.same_putChild ?_).trans (outside b (by simp [inR]) fun inS =>
        apart b (inner.mem inS) inR)
      rcases linkedL.parent_mem rootIn with ⟨-, above⟩ | ⟨inL, -⟩
      · exact fun same => freshR (above ▸ same ▸ inR)
      · exact fun same => apart _ inL (same ▸ inR)
  | @right n l r r' inner ih =>
    obtain ⟨nonzero, parent, left, right, linkedL, linkedR⟩ := linked
    obtain ⟨-, nodupR, freshL, freshR, apart⟩ := nodup_node nodup
    have rootIn : root s ∈ nodes r := inner.mem (root_mem nonempty)
    have sameN := outside n (by simp) fun inS => freshR (inner.mem inS)
    refine ⟨nonzero, sameN.parent.trans parent, ?_, ?_, linkedL.congr fun b inL => ?_,
      ih linkedR nodupR fun b inR => outside b (by simp [inR])⟩
    · rw [sameN.left, ← left]
      refine if_neg fun both => ?_
      exact linkedL.root_ne (linkedR.ne_zero _ rootIn) (fun inL => apart _ inL rootIn)
        (left ▸ both.2)
    · rw [inner.root_eq nodupR nonempty, sameN.right, ← right]
      refine if_congr (and_iff_right_of_imp fun same => ?_) rfl rfl
      rw [← same, right, linkedR.parent_root (ne_nil_of_mem rootIn)]
    · refine (Links.same_putChild ?_).trans (outside b (by simp [inL]) fun inS =>
        apart b inL (inner.mem inS))
      rcases linkedR.parent_mem rootIn with ⟨-, above⟩ | ⟨inR, -⟩
      · exact fun same => freshL (above ▸ same ▸ inL)
      · exact fun same => apart _ inL (same ▸ inR)

/-- A subtree is linked below the parent of its root. -/
theorem Linked.subtree (linked : Linked k p t) (replace : Replace s s' t t') (nonempty : s ≠ .nil) :
    Linked k (k.parent (root s)) s := by
  induction replace generalizing p with
  | here => exact (linked.parent_root nonempty).symm ▸ linked
  | left _ ih => exact ih linked.2.2.2.2.1
  | right _ ih => exact ih linked.2.2.2.2.2

/-- The parent of a subtree is not in it. -/
theorem Linked.parent_not_mem (linked : Linked k p t) (replace : Replace s s' t t')
    (nodup : (nodes t).Nodup) (nonempty : s ≠ .nil) (outside : p ∉ nodes t) :
    k.parent (root s) ∉ nodes s := by
  induction replace generalizing p with
  | here => exact linked.parent_root nonempty ▸ outside
  | left _ ih =>
    obtain ⟨nodupL, -, freshL, -, -⟩ := nodup_node nodup
    exact ih linked.2.2.2.2.1 nodupL freshL
  | right _ ih =>
    obtain ⟨-, nodupR, -, freshR, -⟩ := nodup_node nodup
    exact ih linked.2.2.2.2.2 nodupR freshR

/-! ## Lifting the leftmost node -/

/-- Node `low` is taken from its parent, and is given parent `p` and left child `child`. -/
def Links.lift (k : Links) (low p child : Nat) : Links :=
  (((k.setParent low p).setLeft low child).setParent child low).setLeft (k.parent low) 0

/-- Where the leftmost node of the right child, its parent and the two parts around it are. -/
theorem Linked.lowest_parts (linked : Linked k m (.node n l r))
    (nodup : (nodes (.node n l r)).Nodup) (nonempty : r ≠ .nil) :
    SearchTree.lowest r ∉ nodes l ∧ SearchTree.lowest r ≠ n ∧
      SearchTree.lowest r ∉ nodes (lowestRight r) ∧ SearchTree.lowest r ∉ nodes (cut r) ∧
      k.parent (SearchTree.lowest r) ≠ SearchTree.lowest r ∧
      k.parent (SearchTree.lowest r) ∉ nodes l ∧
      k.parent (SearchTree.lowest r) ∉ nodes (lowestRight r) ∧
      k.parent (SearchTree.lowest r) ∈ nodes (.node n l r) := by
  obtain ⟨-, -, -, -, -, linkedR⟩ := linked
  obtain ⟨-, nodupR, freshL, freshR, apart⟩ := nodup_node nodup
  have parts := nodes_eq_lowest nonempty
  have lowIn := lowest_mem nonempty
  rw [parts, List.nodup_cons, List.nodup_append, List.mem_append, not_or] at nodupR
  obtain ⟨⟨freshLow, freshCut⟩, -, -, apartR⟩ := nodupR
  refine ⟨fun inL => apart _ inL lowIn, fun same => freshR (same ▸ lowIn), freshLow, freshCut, ?_⟩
  rcases linkedR.parent_lowest nonempty with ⟨isRoot, -⟩ | ⟨-, inside⟩
  · have above : k.parent (SearchTree.lowest r) = n := isRoot ▸ linkedR.parent_root nonempty
    rw [above]
    exact ⟨fun same => freshR (same ▸ lowIn), freshL, fun inLow => freshR (mem_of_mem_lowestRight inLow),
      by simp⟩
  · exact ⟨fun same => freshCut (same ▸ inside), fun inL => apart _ inL (mem_of_mem_cut inside),
      fun inLow => apartR _ inLow _ inside rfl, by simp [mem_of_mem_cut inside]⟩

/-- The leftmost node of `r` has taken the place of `n`; the remainder of `r` is loose. -/
theorem Linked.lift (linked : Linked k m (.node n l r)) (nodup : (nodes (.node n l r)).Nodup)
    (nonemptyL : l ≠ .nil) (nonemptyR : r ≠ .nil) :
    Linked (k.lift (SearchTree.lowest r) p (root l)) p
        (.node (SearchTree.lowest r) l (lowestRight r)) ∧
      Linked (k.lift (SearchTree.lowest r) p (root l)) n (cut r) := by
  obtain ⟨lowL, -, lowLow, lowCut, parLow, parL, parLowRight, -⟩ :=
    linked.lowest_parts nodup nonemptyR
  obtain ⟨-, -, -, -, linkedL, linkedR⟩ := linked
  obtain ⟨nodupL, nodupR, -, -, apart⟩ := nodup_node nodup
  obtain ⟨-, right, linkedLow⟩ := linkedR.lowest nonemptyR
  have parts := nodes_eq_lowest nonemptyR
  have rootR : root l ∉ nodes r := apart _ (root_mem nonemptyL)
  rw [parts, List.mem_cons, List.mem_append, not_or, not_or] at rootR
  obtain ⟨rootOther, rootLowRight, rootCut⟩ := rootR
  refine ⟨⟨linkedR.ne_zero _ (lowest_mem nonemptyR), ?_, ?_, right, ?_, ?_⟩, ?_⟩
  · exact (Function.update_of_ne (Ne.symm rootOther) ..).trans (Function.update_self ..)
  · exact (Function.update_of_ne parLow.symm ..).trans (Function.update_self ..)
  · refine Linked.setLeft_of_not_mem ?_ parL
    refine Linked.setParent_root (p := n) ?_ nodupL
    exact (linkedL.setParent_of_not_mem lowL).setLeft_of_not_mem lowL
  · refine Linked.setLeft_of_not_mem ?_ parLowRight
    refine Linked.setParent_of_not_mem ?_ rootLowRight
    exact (linkedLow.setParent_of_not_mem lowLow).setLeft_of_not_mem lowLow
  · have reordered : k.lift (SearchTree.lowest r) p (root l) =
        (((k.setLeft (k.parent (SearchTree.lowest r)) 0).setParent (SearchTree.lowest r) p).setLeft
          (SearchTree.lowest r) (root l)).setParent (root l) (SearchTree.lowest r) := by
      simp only [Links.lift, Links.setLeft, Links.setParent, Function.update_comm parLow]
    rw [reordered]
    refine Linked.setParent_of_not_mem ?_ rootCut
    refine Linked.setLeft_of_not_mem ?_ lowCut
    exact (linkedR.setLeft_parent_lowest nodupR).setParent_of_not_mem lowCut

/-- A lift writes only links of the tree. -/
theorem Linked.same_lift {b : Nat} (linked : Linked k m (.node n l r))
    (nodup : (nodes (.node n l r)).Nodup) (nonemptyL : l ≠ .nil) (nonemptyR : r ≠ .nil)
    (outside : b ∉ nodes (.node n l r)) : k.Same (k.lift (SearchTree.lowest r) p (root l)) b := by
  obtain ⟨-, -, -, -, -, -, -, parIn⟩ := linked.lowest_parts nodup nonemptyR
  have lowIn := lowest_mem nonemptyR
  have other (c : Nat) (inside : c ∈ nodes (.node n l r)) : b ≠ c := fun same =>
    outside (same ▸ inside)
  have otherLow := other _ (mem_nodes_node.mpr (.inr (.inr lowIn)))
  have otherRoot := other _ (mem_nodes_node.mpr (.inl (root_mem nonemptyL)))
  exact (((Links.same_setParent otherLow).trans (Links.same_setLeft otherLow)).trans
    (Links.same_setParent otherRoot)).trans (Links.same_setLeft (other _ parIn))

/-- When the leftmost node is the right child itself, the lift completes the join. -/
theorem Linked.join_root (linked : Linked k m (.node n l r))
    (nodup : (nodes (.node n l r)).Nodup) (nonemptyL : l ≠ .nil) (nonemptyR : r ≠ .nil)
    (isRoot : SearchTree.lowest r = root r) :
    Linked (k.lift (SearchTree.lowest r) p (root l)) p (join l r) := by
  obtain ⟨-, -, -, lowCut, -, -, -, -⟩ := linked.lowest_parts nodup nonemptyR
  have empty : cut r = .nil := by
    rcases linked.2.2.2.2.2.parent_lowest nonemptyR with ⟨-, empty⟩ | ⟨sameRoot, inside⟩
    · exact empty
    · exact absurd (isRoot ▸ sameRoot ▸ root_mem (ne_nil_of_mem inside)) lowCut
  rw [join_of_ne_nil nonemptyL nonemptyR, empty, hang_nil]
  exact (linked.lift nodup nonemptyL nonemptyR).1

/-- Otherwise the remainder is hung below the rightmost node of the lifted tree. -/
theorem Linked.join_deep (linked : Linked k m (.node n l r))
    (nodup : (nodes (.node n l r)).Nodup) (nonemptyL : l ≠ .nil) (nonemptyR : r ≠ .nil)
    (deep : SearchTree.lowest r ≠ root r) {h : Nat}
    (high : h = highest (.node (SearchTree.lowest r) l (lowestRight r))) :
    Linked (((k.lift (SearchTree.lowest r) p (root l)).setRight h (root r)).setParent (root r) h) p
      (join l r) := by
  obtain ⟨lowL, -, lowLow, lowCut, -, -, -, -⟩ := linked.lowest_parts nodup nonemptyR
  obtain ⟨lifted, liftedCut⟩ := linked.lift (p := p) nodup nonemptyL nonemptyR
  obtain ⟨nodupL, nodupR, -, -, apart⟩ := nodup_node nodup
  have parts := nodes_eq_lowest nonemptyR
  rw [parts, List.nodup_cons, List.nodup_append] at nodupR
  obtain ⟨-, nodupLow, nodupCut, apartR⟩ := nodupR
  have nodupLifted : (nodes (.node (SearchTree.lowest r) l (lowestRight r))).Nodup := by
    refine List.nodup_append.mpr ⟨nodupL, List.nodup_cons.mpr ⟨lowLow, nodupLow⟩, ?_⟩
    rintro b inL c inRest rfl
    rcases List.mem_cons.mp inRest with rfl | inLow
    · exact lowL inL
    · exact apart b inL (mem_of_mem_lowestRight inLow)
  have notCut (b : Nat) (inside : b ∈ nodes (.node (SearchTree.lowest r) l (lowestRight r))) :
      b ∉ nodes (cut r) := by
    rcases mem_nodes_node.mp inside with inL | rfl | inLow
    · exact fun inCut => apart b inL (mem_of_mem_cut inCut)
    · exact lowCut
    · exact fun inCut => apartR b inLow b inCut rfl
  have sameRoot : root (cut r) = root r ∧ root r ∈ nodes (cut r) := by
    rcases linked.2.2.2.2.2.parent_lowest nonemptyR with ⟨isRoot, -⟩ | ⟨sameRoot, inside⟩
    · exact absurd isRoot deep
    · exact ⟨sameRoot, sameRoot ▸ root_mem (ne_nil_of_mem inside)⟩
  have joined : join l r = hang (cut r) (.node (SearchTree.lowest r) l (lowestRight r)) :=
    join_of_ne_nil nonemptyL nonemptyR
  rw [joined, high, ← sameRoot.1]
  -- the two writes are to different tables
  refine Linked.setRight_highest (lifted.setParent_of_not_mem ?_)
    (liftedCut.setParent_root nodupCut) nodupLifted (by simp) (notCut _ (highest_mem (by simp)))
  exact fun inside => notCut _ inside (sameRoot.1 ▸ sameRoot.2)

/-! ## Insertion -/

section

variable {α : Type} [LinearOrder α] {key : Nat → α}

theorem ne_leafParent {b : Nat} (inside : b ∈ nodes s) (fresh : m ∉ nodes s)
    (apart : ∀ c ∈ nodes t, c ∉ nodes s) : b ≠ leafParent key n m t := by
  have ends : leafParent key n m t = m ∧ t = .nil ∨ leafParent key n m t ∈ nodes t :=
    leafParent_mem
  rintro rfl
  rcases ends with ⟨above, -⟩ | inT
  · exact fresh (above ▸ inside)
  · exact apart _ inT inside

/-- The child link that leads to a new leaf, or to the old root. -/
theorem addLeaf_link (fresh : m ∉ nodes t) :
    (if m = leafParent key n m t then n else root t) = root (addLeaf key n t) := by
  have ends : leafParent key n m t = m ∧ t = .nil ∨ leafParent key n m t ∈ nodes t :=
    leafParent_mem
  rcases ends with ⟨above, rfl⟩ | inside
  · rw [if_pos above.symm]
    rfl
  · rw [if_neg (ne_of_mem_of_not_mem inside fresh).symm, root_addLeaf (ne_nil_of_mem inside)]

/-- A leaf is linked below the node where the search for its key ends. -/
theorem Linked.addLeaf (linked : Linked k p t) (nodup : (nodes t).Nodup) (nonzero : n ≠ 0)
    (parent : k'.parent n = leafParent key n p t) (left : k'.left n = 0)
    (right : k'.right n = 0)
    (same : ∀ b ∈ nodes t, k'.parent b = k.parent b ∧
      k'.left b = (if b = leafParent key n p t ∧ key n < key b then n else k.left b) ∧
      k'.right b = if b = leafParent key n p t ∧ ¬key n < key b then n else k.right b) :
    Linked k' p (addLeaf key n t) := by
  induction t generalizing p with
  | nil => exact ⟨nonzero, parent, left, right, trivial, trivial⟩
  | node m l r ihL ihR =>
    obtain ⟨nonzeroM, parentM, leftM, rightM, linkedL, linkedR⟩ := linked
    obtain ⟨nodupL, nodupR, freshL, freshR, apart⟩ := nodup_node nodup
    have sameL (b : Nat) (inL : b ∈ nodes l) := same b (by simp [inL])
    have sameR (b : Nat) (inR : b ∈ nodes r) := same b (by simp [inR])
    obtain ⟨parentM', leftM', rightM'⟩ := same m (by simp)
    rw [SearchTree.addLeaf]
    rw [leafParent] at parent sameL sameR leftM' rightM'
    split
    case isTrue less =>
      simp only [if_pos less] at parent sameL sameR leftM' rightM'
      simp only [less, and_true, leftM] at leftM'
      simp only [less, not_true, and_false, if_false] at rightM'
      refine ⟨nonzeroM, parentM'.trans parentM, leftM'.trans (addLeaf_link freshL),
        rightM'.trans rightM, ihL linkedL nodupL parent sameL, linkedR.congr fun b inR => ?_⟩
      obtain ⟨parentB, leftB, rightB⟩ := sameR b inR
      have other : b ≠ leafParent key n m l := ne_leafParent inR freshR apart
      exact ⟨parentB, leftB.trans (if_neg fun both => other both.1),
        rightB.trans (if_neg fun both => other both.1)⟩
    case isFalse notLess =>
      simp only [if_neg notLess] at parent sameL sameR leftM' rightM'
      simp only [notLess, and_false, if_false] at leftM'
      simp only [notLess, not_false_iff, and_true, rightM] at rightM'
      refine ⟨nonzeroM, parentM'.trans parentM, leftM'.trans leftM,
        rightM'.trans (addLeaf_link freshR), linkedL.congr fun b inL => ?_,
        ihR linkedR nodupR parent sameR⟩
      obtain ⟨parentB, leftB, rightB⟩ := sameL b inL
      have other : b ≠ leafParent key n m r :=
        ne_leafParent inL freshL fun c inR inL => apart c inL inR
      exact ⟨parentB, leftB.trans (if_neg fun both => other both.1),
        rightB.trans (if_neg fun both => other both.1)⟩

end

/-! ## Walks -/

/-- The last node on the way from `n` along one table. -/
def follow (next : Nat → Nat) : (fuel n : Nat) → Option Nat
  | 0, _ => none
  | fuel + 1, n => if next n = 0 then some n else follow next fuel (next n)

theorem Linked.follow_left {fuel : Nat} (linked : Linked k p t) (nonempty : t ≠ .nil)
    (enough : (nodes t).length ≤ fuel) :
    follow k.left fuel (root t) = some (SearchTree.lowest t) := by
  induction t using SearchTree.lowest.induct generalizing p fuel with
  | case1 => exact absurd rfl nonempty
  | case2 n r =>
    obtain ⟨fuel, rfl⟩ : ∃ f, fuel = f + 1 := ⟨fuel - 1, by simp [nodes] at enough; omega⟩
    exact if_pos linked.2.2.1
  | case3 n m l r r' ih =>
    obtain ⟨-, -, left, -, linkedL, -⟩ := linked
    obtain ⟨fuel, rfl⟩ : ∃ f, fuel = f + 1 := ⟨fuel - 1, by simp [nodes] at enough; omega⟩
    rw [follow, root, if_neg (left ▸ linkedL.1), left]
    exact ih linkedL (by simp) (by simp [nodes] at enough ⊢; omega)

theorem Linked.follow_right {fuel : Nat} (linked : Linked k p t) (nonempty : t ≠ .nil)
    (enough : (nodes t).length ≤ fuel) :
    follow k.right fuel (root t) = some (highest t) := by
  induction t using highest.induct generalizing p fuel with
  | case1 => exact absurd rfl nonempty
  | case2 n l =>
    obtain ⟨fuel, rfl⟩ : ∃ f, fuel = f + 1 := ⟨fuel - 1, by simp [nodes] at enough; omega⟩
    exact if_pos linked.2.2.2.1
  | case3 n l m l' r' ih =>
    obtain ⟨-, -, -, right, -, linkedR⟩ := linked
    obtain ⟨fuel, rfl⟩ : ∃ f, fuel = f + 1 := ⟨fuel - 1, by simp [nodes] at enough; omega⟩
    rw [follow, root, if_neg (right ▸ linkedR.1), right]
    exact ih linkedR (by simp) (by simp [nodes] at enough ⊢; omega)

end

end PCemWeb.Lib.SearchTree
