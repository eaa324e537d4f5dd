import Mathlib.Algebra.Order.Group.Nat
import Mathlib.Data.Finset.Card
import Mathlib.Data.Finset.Filter
import Mathlib.Data.List.Nodup
import Mathlib.Tactic.Common

/-!
# Owned and pooled resources

A holder holds at most one resource, a pool keeps resources for reuse, and every other
resource is new. `Exclusive` says that no resource is in two places, and `Accounted` that it
is in one. A pool with room for one resource of each holder never overflows: `load` counts
what is held and what is pooled.
-/

namespace PCemWeb.Lib

universe u v

variable {ι : Type u} {κ : Type v} {holds holds' : ι → Option κ} {pool : List κ} {a b : ι} {k l : κ}

/-- No resource has two holders, and none in the pool has one or is there twice. -/
structure Exclusive (holds : ι → Option κ) (pool : List κ) : Prop where
  unique : ∀ {a b k}, holds a = some k → holds b = some k → a = b
  notPooled : ∀ {a k}, holds a = some k → k ∉ pool
  nodup : pool.Nodup

/-- The resource is held or pooled. -/
def Accounted (holds : ι → Option κ) (pool : List κ) (k : κ) : Prop :=
  (∃ a, holds a = some k) ∨ k ∈ pool

/-- The number of holders that hold something and of resources in the pool. -/
def load (holders : Finset ι) (holds : ι → Option κ) (pool : List κ) : Nat :=
  (holders.filter fun a => (holds a).isSome).card + pool.length

variable {holders : Finset ι}

/-! ## The pool -/

/-- A resource in the pool is new once it is out of the pool. -/
theorem Exclusive.pop (exclusive : Exclusive holds (k :: pool)) :
    Exclusive holds pool ∧ ¬Accounted holds pool k := by
  obtain ⟨notInRest, nodup⟩ := List.nodup_cons.mp exclusive.nodup
  refine ⟨⟨exclusive.unique, fun held inRest => exclusive.notPooled held (.tail _ inRest), nodup⟩, ?_⟩
  rintro (⟨b, held⟩ | inRest)
  · exact exclusive.notPooled held (.head _)
  · exact notInRest inRest

theorem accounted_cons : Accounted holds (k :: pool) l ↔ l = k ∨ Accounted holds pool l := by
  simp only [Accounted, List.mem_cons]
  exact or_left_comm

/-- A held resource fits in the pool. -/
theorem room_of_load (held : holds a = some k) (member : a ∈ holders)
    (bound : load holders holds pool ≤ holders.card) : pool.length < holders.card := by
  have inFilter : a ∈ holders.filter fun b => (holds b).isSome :=
    Finset.mem_filter.mpr ⟨member, by rw [held]; rfl⟩
  have positive := Finset.card_pos.mpr ⟨a, inFilter⟩
  unfold load at bound
  omega

theorem load_nil : load holders holds [] ≤ holders.card :=
  Finset.card_filter_le ..

variable [DecidableEq ι]

/-! ## Giving a resource back -/

theorem held_of_released (held : Function.update holds a none b = some k) :
    b ≠ a ∧ holds b = some k := by
  rcases eq_or_ne b a with rfl | other
  · rw [Function.update_self] at held
    cases held
  · rw [Function.update_of_ne other] at held
    exact ⟨other, held⟩

/-- A resource given back lies in the pool. -/
theorem Exclusive.release (exclusive : Exclusive holds pool) (held : holds a = some k) :
    Exclusive (Function.update holds a none) (k :: pool) where
  unique first second :=
    exclusive.unique (held_of_released first).2 (held_of_released second).2
  notPooled := by
    intro b l held'
    obtain ⟨other, held'⟩ := held_of_released held'
    rintro (_ | inPool)
    · exact other (exclusive.unique held' held)
    · exact exclusive.notPooled held' ‹_›
  nodup := List.nodup_cons.mpr ⟨exclusive.notPooled held, exclusive.nodup⟩

/-- Giving a resource back moves it, and no other resource. -/
theorem accounted_release (held : holds a = some k) :
    Accounted (Function.update holds a none) (k :: pool) l ↔ Accounted holds pool l := by
  constructor
  · rintro (⟨b, held'⟩ | inPool)
    · exact .inl ⟨b, (held_of_released held').2⟩
    · rcases List.mem_cons.mp inPool with rfl | inRest
      · exact .inl ⟨a, held⟩
      · exact .inr inRest
  · rintro (⟨b, held'⟩ | inPool)
    · rcases eq_or_ne b a with rfl | other
      · obtain rfl := Option.some.inj (held.symm.trans held')
        exact .inr (.head _)
      · exact .inl ⟨b, (Function.update_of_ne other ..).trans held'⟩
    · exact .inr (.tail _ inPool)

/-! ## Taking a resource -/

theorem held_of_taken (held : Function.update holds a (some k) b = some l) :
    (b = a ∧ l = k) ∨ (b ≠ a ∧ holds b = some l) := by
  rcases eq_or_ne b a with rfl | other
  · rw [Function.update_self] at held
    exact .inl ⟨rfl, (Option.some.inj held).symm⟩
  · rw [Function.update_of_ne other] at held
    exact .inr ⟨other, held⟩

/-- A new resource gets its first holder. -/
theorem Exclusive.acquire (exclusive : Exclusive holds pool) (new : ¬Accounted holds pool k) :
    Exclusive (Function.update holds a (some k)) pool where
  unique := by
    intro b c l first second
    rcases held_of_taken first with ⟨ofB, taken⟩ | ⟨-, heldB⟩
    · rcases held_of_taken second with ⟨ofC, -⟩ | ⟨-, heldC⟩
      · exact ofB.trans ofC.symm
      · exact absurd (.inl ⟨c, taken ▸ heldC⟩) new
    · rcases held_of_taken second with ⟨-, taken⟩ | ⟨-, heldC⟩
      · exact absurd (.inl ⟨b, taken ▸ heldB⟩) new
      · exact exclusive.unique heldB heldC
  notPooled := by
    intro b l held
    rcases held_of_taken held with ⟨-, rfl⟩ | ⟨-, held⟩
    · exact fun inPool => new (.inr inPool)
    · exact exclusive.notPooled held
  nodup := exclusive.nodup

/-- What a holder without a resource takes is accounted for, with everything before. -/
theorem accounted_acquire (idle : holds a = none) :
    Accounted (Function.update holds a (some k)) pool l ↔ l = k ∨ Accounted holds pool l := by
  constructor
  · rintro (⟨b, held⟩ | inPool)
    · rcases held_of_taken held with ⟨-, rfl⟩ | ⟨-, held⟩
      · exact .inl rfl
      · exact .inr (.inl ⟨b, held⟩)
    · exact .inr (.inr inPool)
  · rintro (rfl | ⟨b, held⟩ | inPool)
    · exact .inl ⟨a, Function.update_self ..⟩
    · have other : b ≠ a := by
        rintro rfl
        cases idle.symm.trans held
      exact .inl ⟨b, (Function.update_of_ne other ..).trans held⟩
    · exact .inr inPool

/-! ## The load -/

/-- Giving back keeps the load. -/
theorem load_release (held : holds a = some k) (member : a ∈ holders) :
    load holders (Function.update holds a none) (k :: pool) = load holders holds pool := by
  have erased : (holders.filter fun b => (Function.update holds a none b).isSome) =
      (holders.filter fun b => (holds b).isSome).erase a := by
    ext b
    rcases eq_or_ne b a with rfl | other
    · simp
    · simp [other]
  have inFilter : a ∈ holders.filter fun b => (holds b).isSome :=
    Finset.mem_filter.mpr ⟨member, by rw [held]; rfl⟩
  have positive := Finset.card_pos.mpr ⟨a, inFilter⟩
  rw [load, erased, Finset.card_erase_of_mem inFilter, List.length_cons, load]
  omega

/-- Taking from the pool keeps the load or lowers it. -/
theorem load_take : load holders (Function.update holds a (some k)) pool ≤
    load holders holds (l :: pool) := by
  have inserted : (holders.filter fun b => (Function.update holds a (some k) b).isSome) ⊆
      insert a (holders.filter fun b => (holds b).isSome) := by
    intro b
    rcases eq_or_ne b a with rfl | other
    · simp
    · simp [other]
  have card := (Finset.card_le_card inserted).trans (Finset.card_insert_le ..)
  simp only [load, List.length_cons]
  omega

end PCemWeb.Lib
