import PCemWeb.Codegen.PageTree

/-!
# The page trees hold exactly the added blocks

In every run each page's tree is linked both ways and in search order, and its nodes are the blocks
of the page that were added and not deleted. A search then returns a block with the key and a
fitting status if there is one.
-/

namespace PCemWeb.Codegen.PageTree

open PCemWeb.Lib PCemWeb.Lib.SearchTree

/-! ## Reading the state -/

namespace PageTrees

def links (s : PageTrees) : Links := ⟨fun n => (s.codeblock n).parent, s.left, s.right⟩

/-- What a block keeps while it is relinked. -/
def label (s : PageTrees) (n : Nat) : UInt32 × UInt32 × UInt16 :=
  ((s.codeblock n).phys, (s.codeblock n).cs, (s.codeblock n).status)

def key (s : PageTrees) (n : Nat) : Nat := (s.cmp n).toNat

section

variable {s s' : PageTrees} {n v : Nat} {page : UInt32}

theorem key_eq (same : s'.label = s.label) : s'.key = s.key := by
  funext n
  obtain ⟨phys, cs, -⟩ := Prod.ext_iff.mp (congrFun same n) |>.imp_right Prod.ext_iff.mp
  simp only [label] at phys cs
  simp only [key, cmp, phys, cs]

theorem page_eq (same : s'.label = s.label) (n : Nat) : s'.page n = s.page n := by
  have phys := congrArg Prod.fst (congrFun same n)
  simp only [label] at phys
  rw [page, page, phys]

@[simp] theorem links_setHead : (s.setHead page n).links = s.links := rfl

@[simp] theorem label_setHead : (s.setHead page n).label = s.label := rfl

@[simp] theorem head_setHead : (s.setHead page n).head = Function.update s.head page n := rfl

@[simp] theorem links_setParent : (s.setParent n v).links = s.links.setParent n v := by
  ext b <;> rcases eq_or_ne b n with rfl | other <;>
    simp [links, Links.setParent, setParent, modify, left, right, *]

@[simp] theorem links_setLeft : (s.setLeft n v).links = s.links.setLeft n v := by
  ext b <;> rcases eq_or_ne b n with rfl | other <;>
    simp [links, Links.setLeft, setLeft, modify, left, right, *]

@[simp] theorem links_setRight : (s.setRight n v).links = s.links.setRight n v := by
  ext b <;> rcases eq_or_ne b n with rfl | other <;>
    simp [links, Links.setRight, setRight, modify, left, right, *]

@[simp] theorem label_setParent : (s.setParent n v).label = s.label := by
  funext b
  rcases eq_or_ne b n with rfl | other <;> simp [label, setParent, modify, *]

@[simp] theorem label_setLeft : (s.setLeft n v).label = s.label := by
  funext b
  rcases eq_or_ne b n with rfl | other <;> simp [label, setLeft, modify, *]

@[simp] theorem label_setRight : (s.setRight n v).label = s.label := by
  funext b
  rcases eq_or_ne b n with rfl | other <;> simp [label, setRight, modify, *]

@[simp] theorem head_setParent : (s.setParent n v).head = s.head := rfl

@[simp] theorem head_setLeft : (s.setLeft n v).head = s.head := rfl

@[simp] theorem head_setRight : (s.setRight n v).head = s.head := rfl

theorem left_eq : s.left n = s.links.left n := rfl

theorem right_eq : s.right n = s.links.right n := rfl

theorem parent_eq : (s.codeblock n).parent = s.links.parent n := rfl

end

end PageTrees

/-! ## Loops -/

section

variable {s s' : PageTrees} {t l r : BinaryTree Nat} {nr fuel p : Nat} {a : UInt64}
  {curStatus : UInt16}

theorem findLoop_eq (linked : Linked s.links p t) (enough : (nodes t).length < fuel) :
    findLoop s a curStatus fuel (root t) =
      some (search s.key a.toNat (fun n => fits (s.codeblock n).status curStatus) t) := by
  induction t generalizing p fuel with
  | nil =>
    obtain ⟨fuel, rfl⟩ : ∃ f, fuel = f + 1 := ⟨fuel - 1, by omega⟩
    rfl
  | node n l r ihL ihR =>
    obtain ⟨fuel, rfl⟩ : ∃ f, fuel = f + 1 := ⟨fuel - 1, by omega⟩
    obtain ⟨nonzero, -, left, right, linkedL, linkedR⟩ := linked
    simp only [nodes, List.length_append, List.length_cons] at enough
    have found : a = s.cmp n ↔ a.toNat = s.key n := UInt64.toNat_inj.symm
    have less : a < s.cmp n ↔ a.toNat < s.key n := UInt64.lt_iff_toNat_lt
    simp only [findLoop, search, root, if_neg nonzero, found, less]
    rw [PageTrees.left_eq, PageTrees.right_eq, left, right, ihL linkedL (by omega),
      ihR linkedR (by omega)]
    split_ifs <;> rfl

theorem addLoop_eq (linked : Linked s.links p t) (nonempty : t ≠ .nil)
    (enough : (nodes t).length ≤ fuel) :
    addLoop s (s.cmp nr) fuel (root t) = some (leafParent s.key nr p t) := by
  induction t generalizing p fuel with
  | nil => exact absurd rfl nonempty
  | node n l r ihL ihR =>
    obtain ⟨-, -, left, right, linkedL, linkedR⟩ := linked
    simp only [nodes, List.length_append, List.length_cons] at enough
    obtain ⟨fuel, rfl⟩ : ∃ f, fuel = f + 1 := ⟨fuel - 1, by omega⟩
    have less : s.cmp nr < s.cmp n ↔ s.key nr < s.key n := UInt64.lt_iff_toNat_lt
    simp only [addLoop, leafParent, root, less]
    rw [PageTrees.left_eq, PageTrees.right_eq, left, right]
    split
    · split
      case isTrue zero =>
        rw [linkedL.root_eq_zero.mp zero]
        rfl
      case isFalse nonzero =>
        exact ihL linkedL (fun empty => nonzero (linkedL.root_eq_zero.mpr empty)) (by omega)
    · split
      case isTrue zero =>
        rw [linkedR.root_eq_zero.mp zero]
        rfl
      case isFalse nonzero =>
        exact ihR linkedR (fun empty => nonzero (linkedR.root_eq_zero.mpr empty)) (by omega)

end

/-! ## Deletion -/

section

variable {s s' : PageTrees} {t t' l r : BinaryTree Nat} {p nr child low : Nat}

theorem links_putChild : (putChild s p nr child).links =
    if p = 0 then s.links else s.links.putChild p nr child := by
  by_cases atHead : p = 0
  · simp [putChild, atHead]
  · by_cases isLeft : s.links.left p = nr <;> by_cases isRight : s.links.right p = nr <;>
      simp [putChild, Links.putChild_eq, PageTrees.left_eq, PageTrees.right_eq, *]

theorem label_putChild : (putChild s p nr child).label = s.label := by
  simp only [putChild]
  split_ifs <;> simp

theorem head_putChild : (putChild s p nr child).head =
    if p = 0 then Function.update s.head (s.page nr) child else s.head := by
  simp only [putChild]
  split_ifs <;> rfl

/-- When the deleted block is at the head or below its parent, its only child is told. -/
theorem links_putOnlyChild (known : p = 0 ∨ s.links.left p = nr ∨ s.links.right p = nr) :
    (putOnlyChild s p nr child).links = (putChild s p nr child).links.setParent child p := by
  by_cases atHead : p = 0
  · simp [putOnlyChild, putChild, atHead]
  · by_cases isLeft : s.links.left p = nr
    · by_cases isRight : s.links.right p = nr
      · -- both links lead to the block, and the child is told twice
        simp [putOnlyChild, links_putChild, Links.putChild_eq, PageTrees.left_eq,
          PageTrees.right_eq, Links.setParent, Links.setRight, *]
      · simp [putOnlyChild, links_putChild, Links.putChild_eq, PageTrees.left_eq,
          PageTrees.right_eq, *]
    · have isRight : s.links.right p = nr := (known.resolve_left atHead).resolve_left isLeft
      simp [putOnlyChild, links_putChild, Links.putChild_eq, PageTrees.left_eq,
        PageTrees.right_eq, *]

theorem label_putOnlyChild : (putOnlyChild s p nr child).label = s.label := by
  simp only [putOnlyChild]
  split_ifs <;> simp

theorem head_putOnlyChild :
    (putOnlyChild s p nr child).head = (putChild s p nr child).head := by
  simp only [putOnlyChild, putChild]
  split_ifs <;> rfl

theorem links_replaceByLowest
    (nonzero : (putChild s p nr low).links.left nr ≠ 0) :
    (replaceByLowest s p nr low).links =
      (putChild s p nr low).links.lift low p ((putChild s p nr low).links.left nr) := by
  have parent : s.links.parent low = (putChild s p nr low).links.parent low := by
    rw [links_putChild]
    split <;> rfl
  have child : (((putChild s p nr low).setParent low p).setLeft low
      (((putChild s p nr low).setParent low p).left nr)).left low =
      (putChild s p nr low).links.left nr := by
    simp [PageTrees.left_eq, Links.setLeft]
  simp only [replaceByLowest, child, if_pos nonzero]
  simp [PageTrees.parent_eq, PageTrees.left_eq, parent, Links.lift]

theorem label_replaceByLowest : (replaceByLowest s p nr low).label = s.label := by
  simp only [replaceByLowest]
  split_ifs <;> simp [label_putChild]

theorem head_replaceByLowest :
    (replaceByLowest s p nr low).head = (putChild s p nr low).head := by
  simp only [replaceByLowest]
  split_ifs <;> rfl

/-- What a deletion does to the tree of the block's page and to everything else. -/
structure Deleted (s s' : PageTrees) (nr : Nat) (t t' : BinaryTree Nat) : Prop where
  replace : ∃ l r, Replace (.node nr l r) (join l r) t t'
  linked : Linked s'.links 0 t'
  head : s'.head = Function.update s.head (s.page nr) (root t')
  label : s'.label = s.label
  outside : ∀ b ≠ 0, b ∉ nodes t → s.links.Same s'.links b

/-- The children are joined in place, and the joined tree takes the block's place. -/
theorem Deleted.of_join (linked : Linked s.links 0 t) (nodup : (nodes t).Nodup)
    (replace : Replace (.node nr l r) (join l r) t t') (head : s.head (s.page nr) = root t)
    (inside : Linked s'.links (s.links.parent nr) (join l r))
    (frame : ∀ b ∉ nodes (.node nr l r),
      (putChild s (s.links.parent nr) nr (root (join l r))).links.Same s'.links b)
    (sameHead : s'.head = (putChild s (s.links.parent nr) nr (root (join l r))).head)
    (sameLabel : s'.label = s.label) : Deleted s s' nr t t' := by
  have member : nr ∈ nodes t := replace.mem (by simp)
  have above (b : Nat) (nonzero : b ≠ 0) :
      (s.links.putChild (s.links.parent nr) nr (root (join l r))).Same
        (putChild s (s.links.parent nr) nr (root (join l r))).links b := by
    rw [links_putChild]
    split
    case isTrue zero =>
      have kept : s.links.Same (s.links.putChild (s.links.parent nr) nr (root (join l r))) b :=
        Links.same_putChild (zero ▸ nonzero)
      exact ⟨kept.parent.symm, kept.left.symm, kept.right.symm⟩
    case isFalse => exact .refl
  refine ⟨⟨l, r, replace⟩, linked.replace replace nodup (by simp) inside fun b inTree notBelow =>
    (above b (linked.ne_zero b inTree)).trans (frame b notBelow), ?_, sameLabel,
    fun b nonzero outside => ?_⟩
  · have newRoot : root t' = if root t = nr then root (join l r) else root t :=
      replace.root_eq nodup (by simp)
    rw [sameHead, head_putChild, newRoot]
    rcases linked.parent_mem member with ⟨isRoot, zero⟩ | ⟨inside, -⟩
    · rw [if_pos zero, if_pos isRoot.symm]
    · have notRoot : root t ≠ nr := by
        rintro rfl
        exact linked.ne_zero _ inside (linked.parent_root (ne_nil_of_mem member))
      rw [if_neg (linked.ne_zero _ inside), if_neg notRoot, ← head, Function.update_eq_self]
  · have other : b ≠ s.links.parent nr := by
      rcases linked.parent_mem member with ⟨-, zero⟩ | ⟨inside, -⟩
      · exact zero ▸ nonzero
      · exact (ne_of_mem_of_not_mem inside outside).symm
    exact ((Links.same_putChild other).trans (above b nonzero)).trans
      (frame b fun below => outside (replace.mem below))

/-- A deleted block, its subtree and its parent. -/
structure Focus (s : PageTrees) (nr : Nat) (t l r : BinaryTree Nat) : Prop where
  linked : Linked s.links 0 t
  nodup : (nodes t).Nodup
  enough : (nodes t).length ≤ blockSize
  head : s.head (s.page nr) = root t
  replace : ∃ t', Replace (.node nr l r) (join l r) t t'

theorem Focus.subtree (focus : Focus s nr t l r) :
    Linked s.links (s.links.parent nr) (.node nr l r) ∧ (nodes (.node nr l r)).Nodup ∧
      s.links.parent nr ∉ nodes (.node nr l r) ∧
      (s.links.parent nr = 0 ∨ s.links.left (s.links.parent nr) = nr ∨
        s.links.right (s.links.parent nr) = nr) := by
  obtain ⟨linked, nodup, -, -, t', replace⟩ := focus
  refine ⟨linked.subtree replace (by simp), replace.nodup nodup,
    linked.parent_not_mem replace nodup (by simp) fun inside => linked.ne_zero 0 inside rfl, ?_⟩
  exact (linked.parent_mem (replace.mem (by simp))).imp And.right And.right

/-- The subtree is linked the same after its parent's link has changed. -/
theorem Focus.putChild (focus : Focus s nr t l r) (new : Nat) :
    Linked (putChild s (s.links.parent nr) nr new).links (s.links.parent nr) (.node nr l r) := by
  obtain ⟨below, -, outside, -⟩ := focus.subtree
  refine below.congr fun b inside => ?_
  rw [links_putChild]
  split
  · exact .refl
  · exact Links.same_putChild (ne_of_mem_of_not_mem inside outside)

theorem Focus.leaf (focus : Focus s nr t .nil .nil) :
    ∃ t', Deleted s (PageTree.putChild s (s.links.parent nr) nr 0) nr t t' := by
  obtain ⟨t', replace⟩ := focus.replace
  exact ⟨t', .of_join focus.linked focus.nodup replace focus.head trivial (fun _ _ => .refl) rfl
    label_putChild⟩

/-- An only child takes the place of the block. -/
theorem Focus.onlyChild {c : BinaryTree Nat} (focus : Focus s nr t l r) (joined : join l r = c)
    (nonempty : c ≠ .nil) (nodup : (nodes c).Nodup) (below : ∀ b ∈ nodes c, b ≠ nr → b ∈ nodes (.node nr l r))
    (child : ∀ k p, Linked k p (.node nr l r) → Linked k nr c) :
    ∃ t', Deleted s (putOnlyChild s (s.links.parent nr) nr (root c)) nr t t' := by
  subst joined
  obtain ⟨t', replace⟩ := focus.replace
  obtain ⟨-, -, -, known⟩ := focus.subtree
  have linked := child _ _ (focus.putChild (root (join l r)))
  refine ⟨t', .of_join focus.linked focus.nodup replace focus.head ?_ (fun b outside => ?_)
    head_putOnlyChild label_putOnlyChild⟩
  · rw [links_putOnlyChild known]
    exact linked.setParent_root nodup
  · rw [links_putOnlyChild known]
    refine Links.same_setParent fun same => outside ?_
    rw [same, mem_nodes_node, ← or_assoc, or_right_comm, ← List.mem_append, ← nodes_join]
    exact .inl (root_mem nonempty)

/-- The lowest node of the right child has taken the place of the block. -/
theorem Focus.links_replaceByLowest (focus : Focus s nr t l r) (nonempty : l ≠ .nil) :
    (replaceByLowest s (s.links.parent nr) nr (lowest r)).links =
        (PageTree.putChild s (s.links.parent nr) nr (lowest r)).links.lift (lowest r)
          (s.links.parent nr) (root l) := by
  have linked := focus.putChild (lowest r)
  have left : (PageTree.putChild s (s.links.parent nr) nr (lowest r)).links.left nr = root l :=
    linked.2.2.1
  have nonzero : root l ≠ 0 := fun zero => nonempty (linked.2.2.2.2.1.root_eq_zero.mp zero)
  rw [PageTree.links_replaceByLowest (left ▸ nonzero), left]

/-- Any state with the links of the joined tree, and otherwise as the lowest node was lifted. -/
theorem Focus.lifted (focus : Focus s nr t l r) (nonemptyL : l ≠ .nil) (nonemptyR : r ≠ .nil)
    (inside : Linked s'.links (s.links.parent nr) (join l r))
    (frame : ∀ b ∉ nodes (.node nr l r),
      (replaceByLowest s (s.links.parent nr) nr (lowest r)).links.Same s'.links b)
    (sameHead : s'.head = (replaceByLowest s (s.links.parent nr) nr (lowest r)).head)
    (sameLabel : s'.label = (replaceByLowest s (s.links.parent nr) nr (lowest r)).label) :
    ∃ t', Deleted s s' nr t t' := by
  obtain ⟨t', replace⟩ := focus.replace
  obtain ⟨-, nodup, -, -⟩ := focus.subtree
  have newRoot : root (join l r) = lowest r := by
    rw [join_of_ne_nil nonemptyL nonemptyR]
    rfl
  refine ⟨t', .of_join focus.linked focus.nodup replace focus.head inside (fun b outside => ?_)
    (newRoot ▸ sameHead.trans head_replaceByLowest) (sameLabel.trans label_replaceByLowest)⟩
  have lift := (focus.putChild (lowest r)).same_lift (p := s.links.parent nr) nodup nonemptyL
    nonemptyR outside
  rw [newRoot]
  exact (focus.links_replaceByLowest nonemptyL ▸ lift).trans (frame b outside)

/-- The branch of `codeblock_tree_delete` for two children, its walks carried out. -/
theorem Focus.delete_eq (focus : Focus s nr t l r) (nonemptyL : l ≠ .nil) (nonemptyR : r ≠ .nil) :
    codeblockTreeDelete s nr =
      let lifted := replaceByLowest s (s.links.parent nr) nr (lowest r)
      let high := highest (.node (lowest r) l (lowestRight r))
      if lowest r = root r then some lifted
      else some ((lifted.setRight high (root r)).setParent (root r) high) := by
  obtain ⟨below, nodup, -, -⟩ := focus.subtree
  obtain ⟨nonzero, -, left, right, linkedL, linkedR⟩ := below
  have fuelR : (nodes r).length ≤ blockSize := by
    obtain ⟨t', replace⟩ := focus.replace
    have fewer := replace.length_le
    have enough := focus.enough
    simp only [nodes, List.length_append, List.length_cons] at fewer
    omega
  have fuelLow : (nodes (lowestRight r)).length ≤ blockSize := by
    simp only [nodes_eq_lowest nonemptyR, List.length_cons, List.length_append] at fuelR
    omega
  have rootL : root l ≠ 0 := linkedL.root_eq_zero.not.mpr nonemptyL
  have rootR : root r ≠ 0 := linkedR.root_eq_zero.not.mpr nonemptyR
  have placed := focus.putChild (lowest r)
  have links := focus.links_replaceByLowest nonemptyL
  obtain ⟨⟨-, -, -, lowRight, -, linkedLow⟩, -⟩ :=
    placed.lift (p := s.links.parent nr) nodup nonemptyL nonemptyR
  have rightNr : (replaceByLowest s (s.links.parent nr) nr (lowest r)).links.right nr = root r :=
    links ▸ placed.2.2.2.1
  rw [← links] at lowRight linkedLow
  have walkL : follow s.left blockSize (root r) = some (lowest r) :=
    linkedR.follow_left nonemptyR fuelR
  simp only [codeblockTreeDelete, PageTrees.parent_eq, PageTrees.left_eq, PageTrees.right_eq,
    left, right, if_neg rootL, if_neg rootR, if_neg (not_and_of_not_left _ rootL), walkL,
    Option.bind_eq_bind, Option.bind_some, lowRight, rightNr, linkedLow.root_eq_zero]
  by_cases inner : lowestRight r = .nil
  · rw [if_pos inner, inner, highest, ite_not]
  · have walkR : follow (replaceByLowest s (s.links.parent nr) nr (lowest r)).right blockSize
        (root (lowestRight r)) = some (highest (lowestRight r)) :=
      linkedLow.follow_right inner fuelLow
    rw [if_neg inner, walkR, highest_node inner, Option.bind_some]
    by_cases isRoot : lowest r = root r
    · rw [if_pos isRoot, if_neg fun both => both.2 isRoot.symm]
    · rw [if_neg isRoot, if_pos ⟨rootR, Ne.symm isRoot⟩]

/-- A block with two children is deleted. -/
theorem Focus.two (focus : Focus s nr t l r) (nonemptyL : l ≠ .nil) (nonemptyR : r ≠ .nil) :
    ∃ t' s', codeblockTreeDelete s nr = some s' ∧ Deleted s s' nr t t' := by
  obtain ⟨-, nodup, -, -⟩ := focus.subtree
  have placed := focus.putChild (lowest r)
  have links := focus.links_replaceByLowest nonemptyL
  rw [focus.delete_eq nonemptyL nonemptyR]
  by_cases isRoot : lowest r = root r
  · have joined := placed.join_root (p := s.links.parent nr) nodup nonemptyL nonemptyR isRoot
    obtain ⟨t', deleted⟩ := focus.lifted nonemptyL nonemptyR (links ▸ joined) (fun _ _ => .refl)
      rfl rfl
    exact ⟨t', _, if_pos isRoot, deleted⟩
  · have joined := placed.join_deep (p := s.links.parent nr) nodup nonemptyL nonemptyR isRoot rfl
    have highIn : highest (.node (lowest r) l (lowestRight r)) ∈ nodes (.node nr l r) := by
      have inside : highest (.node (lowest r) l (lowestRight r)) ∈
          nodes (.node (lowest r) l (lowestRight r)) := highest_mem (by simp)
      rcases mem_nodes_node.mp inside with inL | isLow | inLow
      · simp [inL]
      · simp [isLow, lowest_mem nonemptyR]
      · simp [mem_of_mem_lowestRight inLow]
    rw [← links, ← PageTrees.links_setRight, ← PageTrees.links_setParent] at joined
    obtain ⟨t', deleted⟩ := focus.lifted nonemptyL nonemptyR joined (fun b outside => by
      have otherRoot : b ≠ root r := fun same => outside (same ▸ by simp [root_mem nonemptyR])
      have otherHigh := (ne_of_mem_of_not_mem highIn outside).symm
      rw [PageTrees.links_setParent, PageTrees.links_setRight]
      exact (Links.same_setRight otherHigh).trans (Links.same_setParent otherRoot)) rfl (by simp)
    exact ⟨t', _, if_neg isRoot, deleted⟩

/-- `codeblock_tree_delete` takes the block out of its page's tree. -/
theorem codeblockTreeDelete_eq (linked : Linked s.links 0 t) (nodup : (nodes t).Nodup)
    (enough : (nodes t).length ≤ blockSize) (head : s.head (s.page nr) = root t)
    (member : nr ∈ nodes t) :
    ∃ t' s', codeblockTreeDelete s nr = some s' ∧ Deleted s s' nr t t' := by
  obtain ⟨l, r, replace⟩ := exists_replace member
  have focus : Focus s nr t l r := ⟨linked, nodup, enough, head, replace _⟩
  obtain ⟨below, nodupBelow, -, -⟩ := focus.subtree
  obtain ⟨nonzero, -, left, right, linkedL, linkedR⟩ := below
  obtain ⟨nodupL, nodupR, -, -, -⟩ := nodup_node nodupBelow
  rw [← PageTrees.left_eq] at left
  rw [← PageTrees.right_eq] at right
  by_cases emptyL : l = .nil <;> by_cases emptyR : r = .nil
  · subst emptyL emptyR
    obtain ⟨t', deleted⟩ := focus.leaf
    exact ⟨t', _, if_pos ⟨left, right⟩, deleted⟩
  · subst emptyL
    obtain ⟨t', deleted⟩ := focus.onlyChild (c := r) rfl emptyR nodupR
      (fun b inR _ => by simp [inR]) fun k p linked => linked.2.2.2.2.2
    have nonzeroR : s.right nr ≠ 0 := right ▸ linkedR.root_eq_zero.not.mpr emptyR
    exact ⟨t', _, (if_neg fun both => nonzeroR both.2).trans (if_pos left), right ▸ deleted⟩
  · subst emptyR
    obtain ⟨t', deleted⟩ := focus.onlyChild (c := l) (by cases l <;> rfl) emptyL nodupL
      (fun b inL _ => by simp [inL]) fun k p linked => linked.2.2.2.2.1
    have nonzeroL : s.left nr ≠ 0 := left ▸ linkedL.root_eq_zero.not.mpr emptyL
    exact ⟨t', _, (if_neg fun both => nonzeroL both.1).trans ((if_neg nonzeroL).trans
      (if_pos right)), left ▸ deleted⟩
  · exact focus.two emptyL emptyR

end

/-! ## Insertion -/

section

variable {s : PageTrees} {t : BinaryTree Nat} {nr : Nat}

/-- `codeblock_tree_add` links the block in as a leaf of its page's tree. -/
theorem codeblockTreeAdd_eq (linked : Linked s.links 0 t) (nodup : (nodes t).Nodup)
    (enough : (nodes t).length ≤ blockSize) (head : s.head (s.page nr) = root t)
    (nonzero : nr ≠ 0) (fresh : nr ∉ nodes t) :
    ∃ s', codeblockTreeAdd s nr = some s' ∧ Linked s'.links 0 (addLeaf s.key nr t) ∧
      s'.head = Function.update s.head (s.page nr) (root (addLeaf s.key nr t)) ∧
      s'.label = s.label ∧ ∀ b ∉ nodes t, b ≠ nr → s.links.Same s'.links b := by
  by_cases empty : t = .nil
  · subst empty
    refine ⟨_, if_pos head, ?_, by simp [addLeaf, root], by simp, fun b _ other => ?_⟩
    · simp [addLeaf, Linked, root, Links.setParent, Links.setLeft, Links.setRight, nonzero]
    · simpa using ((Links.same_setRight other).trans (Links.same_setLeft other)).trans
        (Links.same_setParent other)
  · have walk : addLoop s (s.cmp nr) blockSize (root t) = some (leafParent s.key nr 0 t) :=
      addLoop_eq linked empty enough
    have nonempty := linked.root_eq_zero.not.mpr empty
    have inTree : leafParent s.key nr 0 t ∈ nodes t :=
      leafParent_mem.resolve_left fun above => empty above.2
    have chosen : s.cmp nr < s.cmp (leafParent s.key nr 0 t) ↔
        s.key nr < s.key (leafParent s.key nr 0 t) := UInt64.lt_iff_toNat_lt
    have evaluated : codeblockTreeAdd s nr = some ((((if s.key nr < s.key (leafParent s.key nr 0 t)
        then s.setLeft (leafParent s.key nr 0 t) nr
        else s.setRight (leafParent s.key nr 0 t) nr).setParent nr
          (leafParent s.key nr 0 t)).setRight nr 0).setLeft nr 0) := by
      simp only [codeblockTreeAdd, head, if_neg nonempty, walk, Option.bind_eq_bind,
        Option.bind_some, chosen]
    obtain ⟨old, isOld⟩ : ∃ old, old = leafParent s.key nr 0 t := ⟨_, rfl⟩
    rw [← isOld] at evaluated inTree
    have otherNr (b : Nat) (member : b ∈ nodes t) : b ≠ nr := ne_of_mem_of_not_mem member fresh
    have sameHead : Function.update s.head (s.page nr) (root (addLeaf s.key nr t)) = s.head := by
      rw [root_addLeaf empty, ← head, Function.update_eq_self]
    refine ⟨_, evaluated, linked.addLeaf nodup nonzero ?_ ?_ ?_ fun b member => ?_, ?_, ?_,
      fun b outside other => ?_⟩
    · simp [Links.setParent, Links.setLeft, Links.setRight, isOld]
    · simp [Links.setLeft]
    · simp [Links.setRight]
    · have other := otherNr b member
      rw [← isOld]
      by_cases less : s.key nr < s.key old <;> rcases eq_or_ne b old with rfl | notOld
      case pos.inl | neg.inl => simp [Links.setParent, Links.setLeft, Links.setRight, other, less]
      case pos.inr | neg.inr =>
        simp [Links.setParent, Links.setLeft, Links.setRight, other, less, notOld]
    · split_ifs <;> simp [sameHead]
    · split_ifs <;> simp
    · have otherOld := (ne_of_mem_of_not_mem inTree outside).symm
      have first : s.links.Same (if s.key nr < s.key old then s.setLeft old nr
          else s.setRight old nr).links b := by
        split_ifs
        · simpa using Links.same_setLeft otherOld
        · simpa using Links.same_setRight otherOld
      simpa using ((first.trans (Links.same_setParent other)).trans
        (Links.same_setRight other)).trans (Links.same_setLeft other)

end

/-! ## Runs -/

/-- The tree of a page holds the added blocks of the page, in search order and linked both ways. -/
structure Holds (s : PageTrees) (added : List Nat) (page : UInt32) (t : BinaryTree Nat) : Prop where
  head : s.head page = root t
  linked : Linked s.links 0 t
  ordered : Ordered s.key t
  nodup : (nodes t).Nodup
  mem : ∀ nr, nr ∈ nodes t ↔ nr ∈ added ∧ s.page nr = page

/-- Every page's tree holds its blocks. -/
structure Machine.Kept (m : Machine) : Prop where
  tree : ∀ page, ∃ t, Holds m.trees m.added page t
  nodup : m.added.Nodup
  range : ∀ nr ∈ m.added, nr ≠ 0 ∧ nr < blockSize

section

variable {m m' : Machine} {s s' : PageTrees} {added added' : List Nat} {page : UInt32}
  {t : BinaryTree Nat} {nr : Nat} {e : Event}

/-- A tree stays when its blocks and its page's head do. -/
theorem Holds.congr (holds : Holds s added page t) (head : s'.head page = s.head page)
    (links : ∀ b ∈ nodes t, s.links.Same s'.links b) (key : ∀ b ∈ nodes t, s'.key b = s.key b)
    (mem : ∀ nr, nr ∈ added' ∧ s'.page nr = page ↔ nr ∈ added ∧ s.page nr = page) :
    Holds s' added' page t where
  head := head.trans holds.head
  linked := holds.linked.congr links
  ordered := holds.ordered.congr key
  nodup := holds.nodup
  mem nr := (holds.mem nr).trans (mem nr).symm

/-- A tree has fewer nodes than there are blocks, 0 being none. -/
theorem Machine.Kept.length_lt (kept : m.Kept) (holds : Holds m.trees m.added page t) :
    (nodes t).length < blockSize := by
  have fresh : 0 ∉ nodes t := fun member => holds.linked.ne_zero 0 member rfl
  have inRange : (0 :: nodes t) ⊆ List.range blockSize := by
    intro b member
    rcases List.mem_cons.mp member with rfl | inTree
    · exact List.mem_range.mpr (Nat.lt_of_lt_of_eq (by decide) rfl)
    · exact List.mem_range.mpr (kept.range b ((holds.mem b).mp inTree).1).2
  have fits := (List.subperm_of_subset (List.nodup_cons.mpr ⟨fresh, holds.nodup⟩) inRange).length_le
  rw [List.length_range] at fits
  exact fits

theorem Machine.Kept.add (kept : m.Kept) (nonzero : nr ≠ 0) (bound : nr < blockSize)
    (fresh : nr ∉ m.added) : ∃ s', codeblockTreeAdd m.trees nr = some s' ∧
      Machine.Kept ⟨s', nr :: m.added⟩ := by
  obtain ⟨t, holds⟩ := kept.tree (m.trees.page nr)
  have freshTree : nr ∉ nodes t := fun member => fresh ((holds.mem nr).mp member).1
  obtain ⟨s', result, linked, head, label, outside⟩ := codeblockTreeAdd_eq holds.linked holds.nodup
    (Nat.le_of_lt (kept.length_lt holds)) holds.head nonzero freshTree
  have page := PageTrees.page_eq label
  have key := PageTrees.key_eq label
  refine ⟨s', result, fun page' => ?_, List.nodup_cons.mpr ⟨fresh, kept.nodup⟩, ?_⟩
  · rcases eq_or_ne page' (m.trees.page nr) with rfl | otherPage
    · refine ⟨_, by rw [head, Function.update_self], linked, key ▸ holds.ordered.addLeaf,
        nodup_addLeaf holds.nodup freshTree, fun b => ?_⟩
      rw [mem_addLeaf, holds.mem, page, List.mem_cons]
      grind
    · obtain ⟨t', holds'⟩ := kept.tree page'
      refine ⟨t', holds'.congr ?_ (fun b member => ?_) (fun b _ => congrFun key b) fun b => ?_⟩
      · rw [head, Function.update_of_ne otherPage]
      · obtain ⟨isAdded, onPage⟩ := (holds'.mem b).mp member
        refine outside b (fun inTree => ?_) (ne_of_mem_of_not_mem isAdded fresh)
        exact otherPage (onPage.symm.trans ((holds.mem b).mp inTree).2)
      · rw [page, List.mem_cons]
        grind
  · intro b member
    rcases List.mem_cons.mp member with rfl | member
    · exact ⟨nonzero, bound⟩
    · exact kept.range b member

theorem Machine.Kept.delete (kept : m.Kept) (member : nr ∈ m.added) :
    ∃ s', codeblockTreeDelete m.trees nr = some s' ∧ Machine.Kept ⟨s', m.added.erase nr⟩ := by
  obtain ⟨t, holds⟩ := kept.tree (m.trees.page nr)
  have inTree : nr ∈ nodes t := (holds.mem nr).mpr ⟨member, rfl⟩
  obtain ⟨t', s', result, deleted⟩ := codeblockTreeDelete_eq holds.linked holds.nodup
    (Nat.le_of_lt (kept.length_lt holds)) holds.head inTree
  have page := PageTrees.page_eq deleted.label
  have key := PageTrees.key_eq deleted.label
  obtain ⟨l, r, replace⟩ := deleted.replace
  have erased := replace.nodes_erase holds.nodup
  refine ⟨s', result, fun page' => ?_, kept.nodup.erase nr, fun b isAdded =>
    kept.range b (List.mem_of_mem_erase isAdded)⟩
  rcases eq_or_ne page' (m.trees.page nr) with rfl | otherPage
  · refine ⟨t', by rw [deleted.head, Function.update_self], deleted.linked, ?_,
      erased ▸ holds.nodup.erase nr, fun b => ?_⟩
    · rw [key]
      exact holds.ordered.replace replace Ordered.join fun b member => by
        rw [nodes_join, List.mem_append] at member
        exact mem_nodes_node.mpr (member.imp_right .inr)
    · rw [erased, holds.nodup.mem_erase_iff, kept.nodup.mem_erase_iff, holds.mem, page, and_assoc]
  · obtain ⟨t₂, holds₂⟩ := kept.tree page'
    refine ⟨t₂, holds₂.congr ?_ (fun b inTree₂ => ?_) (fun b _ => congrFun key b) fun b => ?_⟩
    · rw [deleted.head, Function.update_of_ne otherPage]
    · have onPage := ((holds₂.mem b).mp inTree₂).2
      refine deleted.outside b (holds₂.linked.ne_zero b inTree₂) fun inTree => ?_
      exact otherPage (onPage.symm.trans ((holds.mem b).mp inTree).2)
    · rw [page, kept.nodup.mem_erase_iff]
      refine ⟨fun ⟨⟨_, isAdded⟩, onPage⟩ => ⟨isAdded, onPage⟩, fun ⟨isAdded, onPage⟩ =>
        ⟨⟨?_, isAdded⟩, onPage⟩⟩
      rintro rfl
      exact otherPage onPage.symm

/-- A block that is in no tree, or keeps its key, may change its other fields. -/
theorem Machine.Kept.modify {f : TreeBlock → TreeBlock} (kept : m.Kept)
    (parent : (f (m.trees.codeblock nr)).parent = (m.trees.codeblock nr).parent)
    (left : (f (m.trees.codeblock nr)).left = (m.trees.codeblock nr).left)
    (right : (f (m.trees.codeblock nr)).right = (m.trees.codeblock nr).right)
    (free : nr ∉ m.added ∨ (f (m.trees.codeblock nr)).phys = (m.trees.codeblock nr).phys ∧
      (f (m.trees.codeblock nr)).cs = (m.trees.codeblock nr).cs) :
    Machine.Kept { m with trees := m.trees.modify nr f } := by
  refine ⟨fun page => ?_, kept.nodup, kept.range⟩
  obtain ⟨t, holds⟩ := kept.tree page
  have same (b : Nat) (isAdded : b ∈ m.added) :
      ((m.trees.modify nr f).codeblock b).phys = (m.trees.codeblock b).phys ∧
        ((m.trees.modify nr f).codeblock b).cs = (m.trees.codeblock b).cs := by
    rcases eq_or_ne b nr with rfl | other
    · simpa [PageTrees.modify] using free.resolve_left (not_not_intro isAdded)
    · simp [PageTrees.modify, other]
  refine ⟨t, holds.congr rfl (fun b _ => ?_) (fun b member => ?_) fun b => ?_⟩
  · rcases eq_or_ne b nr with rfl | other
    · exact ⟨by simp [PageTrees.links, PageTrees.modify, parent],
        by simp [PageTrees.links, PageTrees.left, PageTrees.modify, left],
        by simp [PageTrees.links, PageTrees.right, PageTrees.modify, right]⟩
    · exact ⟨by simp [PageTrees.links, PageTrees.modify, other],
        by simp [PageTrees.links, PageTrees.left, PageTrees.modify, other],
        by simp [PageTrees.links, PageTrees.right, PageTrees.modify, other]⟩
  · obtain ⟨phys, cs⟩ := same b ((holds.mem b).mp member).1
    rw [PageTrees.key, PageTrees.key, PageTrees.cmp, PageTrees.cmp, phys, cs]
  · refine and_congr_right fun isAdded => ?_
    rw [PageTrees.page, PageTrees.page, (same b isAdded).1]

theorem Machine.Kept.step (kept : m.Kept) (next : step m e = some m') : m'.Kept := by
  cases e with
  | add nr =>
    obtain ⟨⟨pos, bound, fresh⟩, next⟩ := Option.ite_none_right_eq_some.mp next
    obtain ⟨s', result, kept'⟩ := kept.add (Nat.ne_of_gt pos) bound fresh
    rw [result] at next
    exact Option.some.inj next ▸ kept'
  | delete nr =>
    obtain ⟨member, next⟩ := Option.ite_none_right_eq_some.mp next
    obtain ⟨s', result, kept'⟩ := kept.delete member
    rw [result] at next
    exact Option.some.inj next ▸ kept'
  | setKey nr phys cs =>
    obtain ⟨fresh, next⟩ := Option.ite_none_right_eq_some.mp next
    exact Option.some.inj next ▸ kept.modify rfl rfl rfl (.inl fresh)
  | setStatus nr status =>
    exact Option.some.inj next ▸ kept.modify rfl rfl rfl (.inr ⟨rfl, rfl⟩)

/-! ## Searches -/

/-- The key keeps both of its parts. -/
theorem blockCmp_inj {phys phys' cs cs' : UInt32} :
    blockCmp phys cs = blockCmp phys' cs' ↔ phys = phys' ∧ cs = cs' := by
  have parts (phys cs : UInt32) : (blockCmp phys cs).toNat = phys.toNat * 0x100000000 + cs.toNat := by
    have low := cs.toNat_lt
    have high := phys.toNat_lt
    have shifted : (phys.toUInt64 <<< 32).toNat = phys.toNat <<< 32 := by
      rw [UInt64.toNat_shiftLeft, UInt32.toNat_toUInt64]
      refine Nat.mod_eq_of_lt ?_
      rw [Nat.shiftLeft_eq]
      exact Nat.mul_lt_mul_of_pos_right high (by decide)
    rw [blockCmp, UInt64.toNat_or, shifted, UInt32.toNat_toUInt64, Nat.or_comm,
      ← Nat.shiftLeft_add_eq_or_of_lt low, Nat.shiftLeft_eq]
  refine ⟨fun same => ?_, fun ⟨samePhys, sameCs⟩ => by rw [samePhys, sameCs]⟩
  have sums := congrArg UInt64.toNat same
  rw [parts, parts] at sums
  have low := cs.toNat_lt
  have low' := cs'.toNat_lt
  exact ⟨UInt32.toNat_inj.mp (by omega), UInt32.toNat_inj.mp (by omega)⟩

/-- A block has the key that is looked for and a status that fits. -/
structure Matching (s : PageTrees) (phys cs : UInt32) (curStatus : UInt16) (nr : Nat) : Prop where
  phys : (s.codeblock nr).phys = phys
  cs : (s.codeblock nr).cs = cs
  status : fits (s.codeblock nr).status curStatus = true

/-- A search returns a matching block when one is in the tree, and otherwise `NULL`. -/
theorem Machine.Kept.find (kept : m.Kept) (phys cs : UInt32) (curStatus : UInt16) :
    ∃ nr, codeblockTreeFind m.trees phys cs curStatus = some nr ∧
      (nr ≠ 0 → nr ∈ m.added ∧ Matching m.trees phys cs curStatus nr) ∧
      (nr = 0 → ∀ b ∈ m.added, ¬Matching m.trees phys cs curStatus b) := by
  obtain ⟨t, holds⟩ := kept.tree (phys >>> 12)
  have result : codeblockTreeFind m.trees phys cs curStatus =
      some (search m.trees.key (blockCmp phys cs).toNat
        (fun n => fits (m.trees.codeblock n).status curStatus) t) := by
    rw [codeblockTreeFind, holds.head]
    split
    case isTrue zero =>
      rw [holds.linked.root_eq_zero.mp zero]
      rfl
    case isFalse => exact findLoop_eq holds.linked (kept.length_lt holds)
  have keyed (b : Nat) : m.trees.key b = (blockCmp phys cs).toNat ↔
      (m.trees.codeblock b).phys = phys ∧ (m.trees.codeblock b).cs = cs :=
    UInt64.toNat_inj.trans blockCmp_inj
  refine ⟨_, result, fun found => ?_, fun missing b isAdded matching => ?_⟩
  · obtain ⟨member, same, passes⟩ := search_sound.resolve_left found
    obtain ⟨samePhys, sameCs⟩ := (keyed _).mp same
    exact ⟨((holds.mem _).mp member).1, samePhys, sameCs, passes⟩
  · have onPage : m.trees.page b = phys >>> 12 := by rw [PageTrees.page, matching.phys]
    exact holds.ordered.search_complete ((holds.mem b).mpr ⟨isAdded, onPage⟩)
      ((keyed b).mpr ⟨matching.phys, matching.cs⟩) matching.status holds.linked.ne_zero missing

/-! ## The page trees are exact -/

theorem Machine.Kept.init (empty : ∀ page, s.head page = 0) : Machine.Kept ⟨s, []⟩ where
  tree page := ⟨.nil, empty page, trivial, trivial, .nil, by simp [nodes]⟩
  nodup := .nil
  range := by simp

/-- In every run from empty trees: each page's tree is linked both ways and in search order, its
nodes are the blocks of the page that were added and not deleted, searches are exact, and every
further addition and deletion comes to an end. -/
theorem pageTrees_exact {events : List Event} (empty : ∀ page, s.head page = 0)
    (run : exec step ⟨s, []⟩ events = some m) :
    (∀ page, ∃ t, Holds m.trees m.added page t) ∧
      (∀ phys cs curStatus, ∃ nr, codeblockTreeFind m.trees phys cs curStatus = some nr ∧
        (nr ≠ 0 → nr ∈ m.added ∧ Matching m.trees phys cs curStatus nr) ∧
        (nr = 0 → ∀ b ∈ m.added, ¬Matching m.trees phys cs curStatus b)) ∧
      (∀ nr, 0 < nr → nr < blockSize → nr ∉ m.added →
        ∃ s', step m (.add nr) = some ⟨s', nr :: m.added⟩) ∧
      ∀ nr ∈ m.added, ∃ s', step m (.delete nr) = some ⟨s', m.added.erase nr⟩ := by
  have kept : m.Kept := exec_invariant run (.init empty) Machine.Kept.step
  refine ⟨kept.tree, kept.find, fun nr pos bound fresh => ?_, fun nr member => ?_⟩
  · obtain ⟨s', result, -⟩ := kept.add (Nat.ne_of_gt pos) bound fresh
    exact ⟨s', by rw [step, if_pos ⟨pos, bound, fresh⟩, result, Option.map_some]⟩
  · obtain ⟨s', result, -⟩ := kept.delete member
    exact ⟨s', by rw [step, if_pos member, result, Option.map_some]⟩

/-- Three blocks with one key, the first of which is deleted while it has two below it. -/
def equalKeysRun : Option Machine :=
  exec step ⟨⟨fun _ => ⟨0x10, 0x5000, 0, 0, 0, 0⟩, fun _ => 0⟩, []⟩
    [.add 1, .add 2, .setStatus 2 0x100, .add 3, .delete 1]

theorem pageTrees_exact_equal_keys : ∃ m, equalKeysRun = some m ∧ (∃ t, Holds m.trees [3, 2] 5 t) ∧
    ∃ nr, codeblockTreeFind m.trees 0x5000 0x10 0x100 = some nr ∧ nr ∈ m.added := by
  obtain ⟨m, run⟩ := Option.isSome_iff_exists.mp (show equalKeysRun.isSome by decide +kernel)
  have added : equalKeysRun.map Machine.added = some [3, 2] := by decide +kernel
  have label : equalKeysRun.map (·.trees.label 2) = some (0x5000, 0x10, 0x100) := by
    decide +kernel
  obtain ⟨tree, find, -⟩ := pageTrees_exact (fun _ => rfl) run
  rw [run, Option.map_some, Option.some_inj] at added label
  obtain ⟨nr, result, found, missing⟩ := find 0x5000 0x10 0x100
  refine ⟨m, run, added ▸ tree 5, nr, result, (found fun zero => ?_).1⟩
  simp only [PageTrees.label, Prod.mk.injEq] at label
  exact missing zero 2 (by simp [added]) ⟨label.1, label.2.1, by rw [label.2.2]; decide⟩

end

end PCemWeb.Codegen.PageTree
