import Mathlib.Algebra.Order.Ring.Nat
import Mathlib.Tactic.IntervalCases
import PCemWeb.Ide.BusMaster

/-!
# Scatter and gather byte by byte

The regions of a descriptor table as one stream of addresses: a transfer moves each byte of its
buffer to or from the next address of the stream, and passes over the addresses outside memory. The
code moves whole pieces; the two are compared over any sequence of guest writes and transfers.
-/

namespace PCemWeb

open Lib

/-! ## The stream -/

namespace SffBusmaster

/-- The end of a region: the table is over, or its next descriptor is loaded. -/
def finish (ram : Nat → BitVec 8) (b : SffBusmaster) : SffBusmaster :=
  if b.count = 0 then
    if b.eot = true then { b with status := b.status &&& ~~~1 } else b.load ram
  else b

/-- Some bytes further in the region. -/
def forward (b : SffBusmaster) (n : Nat) : SffBusmaster :=
  { b with addr := (b.addr + n) % 4294967296, count := b.count - n }

end SffBusmaster

/-- One byte between `ram[addr]` and position `i` of the buffer. -/
def DmaStore.moveByte (dir : DmaDir) (addr i : Nat) (w : DmaStore) : DmaStore :=
  match dir with
  | .read =>
      { w with
        ram := fun a => if a = addr then w.buf i else w.ram a
        copied := w.copied ++ [(addr, i)] }
  | .write =>
      { w with
        buf := fun j => if j = i then w.ram addr else w.buf j
        copied := w.copied ++ [(addr, i)] }

/-- The next byte of the stream. -/
def nextByte (mem : MemSize) (dir : DmaDir) (i : Nat) (b : SffBusmaster) (w : DmaStore) :
    SffBusmaster × DmaStore :=
  let w := if b.addr < mem.bytes then w.moveByte dir b.addr i else w
  ((b.forward 1).finish w.ram, w)

/-- The next `n` bytes of the stream, with the buffer positions from `i`. -/
def bytewise (mem : MemSize) (dir : DmaDir) :
    Nat → Nat → SffBusmaster → DmaStore → SffBusmaster × DmaStore
  | 0, _, b, w => (b, w)
  | n + 1, i, b, w =>
      bytewise mem dir n (i + 1) (nextByte mem dir i b w).1 (nextByte mem dir i b w).2

/-! ## The statement -/

/-- A transfer does what the stream says: the same registers, memory, buffer and copied addresses,
all of them inside memory and the buffer, and every byte stored in memory is marked. A channel that
is not active refuses it. -/
def TransferExact (mem : MemSize) (dir : DmaDir) (size : Nat) (b : SffBusmaster)
    (ram buf : Nat → BitVec 8) (k : DmaMarks) : Prop :=
  if b.Active then
    ∃ e, busMasterData mem dir size b ram buf k = .ok e ∧ e.ret = 0 ∧
      (e.bus, e.store) = bytewise mem dir size 0 b ⟨ram, buf, []⟩ ∧
      ∀ p ∈ e.store.copied, p.1 < mem.bytes ∧ p.2 < size ∧
        (dir = .read → e.marks.dirty (p.1 / 64) = true)
  else busMasterData mem dir size b ram buf k = .ok ⟨1, b, ⟨ram, buf, []⟩, k⟩

/-- An access of the system is faithful: a transfer follows the stream, and the write that starts a
channel reads its first descriptor from memory. -/
def DmaSystem.StepExact (mem : MemSize) (s : DmaSystem) : DmaOp → Prop
  | .transfer channel dir size buf =>
      TransferExact mem dir size (s.bus channel) s.ram buf s.marks
  | op => ∃ t, s.step mem op = .ok t

/-- Every access of a run is faithful. -/
def DmaSystem.RunExact (mem : MemSize) : DmaSystem → List DmaOp → Prop
  | _, [] => True
  | s, op :: ops => s.StepExact mem op ∧ ∀ t, s.step mem op = .ok t → t.RunExact mem ops

/-! ## The condition -/

/-- The marks of a transfer of `size` bytes from an address stay inside the page table. -/
def MarksInside (mem : MemSize) (addr size : Nat) : Prop :=
  addr / 64 * 64 ≤ ((addr + (size - 1)) % 4294967296 + 63) % 4294967296 / 64 * 64 →
    ((addr + (size - 1)) % 4294967296 + 63) % 4294967296 / 64 * 64 / 4096 < mem.pages

/-- The table serves the bytes of a transfer from a position on, region by region: it does not end
before them, no region outside memory runs past the end of the address space, the marks stay inside
the page table, and each descriptor that follows lies in memory. -/
inductive Serves (mem : MemSize) (dir : DmaDir) (size : Nat) :
    Nat → SffBusmaster → DmaStore → Prop
  | passed {i : Nat} {b : SffBusmaster} {w : DmaStore} : size ≤ i → Serves mem dir size i b w
  | piece {i n : Nat} {b : SffBusmaster} {w : DmaStore} :
    i < size → n = min b.count (size - i) →
    (b.eot = true → size - i ≤ b.count) →
    (mem.bytes ≤ b.addr → b.addr + n ≤ 4294967296) →
    (dir = .read → MarksInside mem b.addr size) →
    (n = b.count → b.eot = false → b.ptrCur + 8 ≤ mem.bytes) →
    Serves mem dir size (i + n) (bytewise mem dir n i b w).1 (bytewise mem dir n i b w).2 →
    Serves mem dir size i b w

/-- The condition on an access. -/
def DmaSystem.StepServed (mem : MemSize) (s : DmaSystem) : DmaOp → Prop
  | .transfer channel dir size buf =>
      (s.bus channel).Active → Serves mem dir size 0 (s.bus channel) ⟨s.ram, buf, []⟩
  | .write channel 0 val =>
      val &&& 1 ≠ 0 → (s.bus channel).command &&& 1 = 0 →
        (s.bus channel).ptr.toNat + 8 ≤ mem.bytes
  | _ => True

/-- The condition on a run. -/
def DmaSystem.RunServed (mem : MemSize) : DmaSystem → List DmaOp → Prop
  | _, [] => True
  | s, op :: ops => s.StepServed mem op ∧ ∀ t, s.step mem op = .ok t → t.RunServed mem ops

/-! ## Copies -/

section Copies

variable {mem : MemSize} {dir : DmaDir}

/-- A copy is its last byte after the others. -/
theorem copy_succ (addr i n : Nat) (w : DmaStore) :
    w.copy dir addr i (n + 1) = (w.copy dir addr i n).moveByte dir (addr + n) (i + n) := by
  have moved : (List.range (n + 1)).map (fun j : Nat => (addr + j, i + j)) =
      (List.range n).map (fun j : Nat => (addr + j, i + j)) ++ [(addr + n, i + n)] := by
    rw [List.range_succ, List.map_append]
    rfl
  have last (f mem' : Nat → BitVec 8) (base : Nat) (v : BitVec 8) :
      overlay mem' base [v] = fun a => if a = base then v else mem' a := by
    funext a
    by_cases same : a = base
    · subst same
      simp [overlay]
    · rw [if_neg same]
      apply overlay_of_outside
      rw [List.length_singleton]
      omega
  have split (f g : Nat → BitVec 8) (base from_ : Nat) :
      overlay f base (slice g from_ (n + 1)) =
        fun a => if a = base + n then g (from_ + n) else overlay f base (slice g from_ n) a := by
    rw [slice_append, overlay_append, length_slice]
    exact last f _ _ _
  cases dir with
  | read =>
    simp only [DmaStore.copy, DmaStore.moveByte, moved, split, List.append_assoc]
  | write =>
    simp only [DmaStore.copy, DmaStore.moveByte, moved, split, List.append_assoc]

theorem copy_zero (addr i : Nat) (w : DmaStore) : w.copy dir addr i 0 = w := by
  cases dir <;> simp [DmaStore.copy]

/-- A piece grows by a byte. -/
theorem copyPiece_succ {addr i n : Nat} (w : DmaStore)
    (near : addr < mem.bytes → addr + (n + 1) < 4294967296)
    (far : mem.bytes ≤ addr → addr + (n + 1) ≤ 4294967296) :
    w.copyPiece mem dir addr i (n + 1) =
      (if (addr + n) % 4294967296 < mem.bytes then
        (w.copyPiece mem dir addr i n).moveByte dir ((addr + n) % 4294967296) (i + n)
      else w.copyPiece mem dir addr i n) := by
  unfold DmaStore.copyPiece
  by_cases low : addr < mem.bytes
  · have room := near low
    simp only [if_pos low]
    rw [Nat.mod_eq_of_lt room, Nat.mod_eq_of_lt (show addr + n < 4294967296 by omega)]
    by_cases inside : addr + n < mem.bytes
    · rw [if_neg (show ¬mem.bytes < addr + (n + 1) by omega),
        if_neg (show ¬mem.bytes < addr + n by omega), if_pos inside, copy_succ]
    · rw [if_pos (show mem.bytes < addr + (n + 1) by omega), if_neg inside]
      by_cases edge : mem.bytes < addr + n
      · rw [if_pos edge]
      · rw [if_neg edge]
        congr 1
        omega
  · have room := far (by omega)
    simp only [if_neg low]
    rw [Nat.mod_eq_of_lt (show addr + n < 4294967296 by omega), if_neg (by omega)]

theorem copyPiece_zero {addr i : Nat} (w : DmaStore) : w.copyPiece mem dir addr i 0 = w := by
  unfold DmaStore.copyPiece
  by_cases low : addr < mem.bytes
  · rw [if_pos low]
    have none : (if mem.bytes < (addr + 0) % 4294967296 then mem.bytes - addr else 0) = 0 := by
      split <;> omega
    dsimp only
    rw [none, copy_zero]
  · rw [if_neg low]

end Copies

/-! ## Pieces of the stream -/

/-- A channel that can move its next byte. -/
structure SffBusmaster.Ready (mem : MemSize) (b : SffBusmaster) : Prop where
  memory : 0 < mem.bytes
  some : 0 < b.count
  most : b.count ≤ 65536
  addr : b.addr < 4294967296

theorem MemSize.bytes_lt (mem : MemSize) : mem.bytes < 2147483648 - 393216 := by
  have bound := mem.bound
  unfold MemSize.bytes
  omega

section Stream

variable {mem : MemSize} {dir : DmaDir}

theorem bytewise_add (m n i : Nat) (b : SffBusmaster) (w : DmaStore) :
    bytewise mem dir (m + n) i b w =
      bytewise mem dir n (i + m) (bytewise mem dir m i b w).1 (bytewise mem dir m i b w).2 := by
  induction m generalizing i b w with
  | zero => rw [Nat.zero_add, Nat.add_zero, bytewise]
  | succ m ih =>
    rw [show m + 1 + n = m + n + 1 by omega, bytewise, ih, bytewise,
      show i + (m + 1) = i + 1 + m by omega]

theorem bytewise_succ (n i : Nat) (b : SffBusmaster) (w : DmaStore) :
    bytewise mem dir (n + 1) i b w =
      nextByte mem dir (i + n) (bytewise mem dir n i b w).1 (bytewise mem dir n i b w).2 := by
  rw [bytewise_add, bytewise, bytewise]

namespace SffBusmaster

theorem forward_zero {b : SffBusmaster} (addr : b.addr < 4294967296) : b.forward 0 = b := by
  unfold forward
  rw [Nat.add_zero, Nat.mod_eq_of_lt addr, Nat.sub_zero]

theorem forward_forward (b : SffBusmaster) (m n : Nat) :
    (b.forward m).forward n = b.forward (m + n) := by
  unfold forward
  dsimp only
  rw [Nat.mod_add_mod, Nat.add_assoc, Nat.sub_sub]

theorem finish_of_some {b : SffBusmaster} (ram : Nat → BitVec 8) (more : 0 < b.count) :
    b.finish ram = b := by
  unfold finish
  rw [if_neg (by omega)]

end SffBusmaster

/-- The stream inside a region: the bytes of a piece, one after the other. -/
theorem bytewise_inside {b : SffBusmaster} {n : Nat} (i : Nat) (w : DmaStore)
    (addr : b.addr < 4294967296) (less : n < b.count)
    (near : b.addr < mem.bytes → b.addr + n < 4294967296)
    (far : mem.bytes ≤ b.addr → b.addr + n ≤ 4294967296) :
    bytewise mem dir n i b w = (b.forward n, w.copyPiece mem dir b.addr i n) := by
  induction n with
  | zero => rw [bytewise, b.forward_zero addr, copyPiece_zero]
  | succ n ih =>
    rw [bytewise_succ, ih (by omega) (by omega) (by omega), nextByte,
      copyPiece_succ w near far]
    dsimp only
    rw [b.forward_forward, SffBusmaster.finish_of_some _ (by change 0 < b.count - (n + 1); omega)]
    rfl

/-- The stream over a piece, to the end of the region if the piece ends there. -/
theorem bytewise_piece {b : SffBusmaster} {n : Nat} (i : Nat) (w : DmaStore)
    (addr : b.addr < 4294967296) (some : 0 < n) (most : n ≤ b.count)
    (near : b.addr < mem.bytes → b.addr + n < 4294967296)
    (far : mem.bytes ≤ b.addr → b.addr + n ≤ 4294967296) :
    bytewise mem dir n i b w =
      ((b.forward n).finish (w.copyPiece mem dir b.addr i n).ram,
        w.copyPiece mem dir b.addr i n) := by
  obtain ⟨m, rfl⟩ : ∃ m, n = m + 1 := ⟨n - 1, by omega⟩
  rw [bytewise_succ, bytewise_inside i w addr (by omega) (by omega) (by omega), nextByte,
    copyPiece_succ w near far]
  dsimp only
  rw [b.forward_forward]
  rfl

/-! ## The copied addresses -/

/-- Bytes of the stream only add to the copied addresses, with positions from `i` on. -/
theorem bytewise_copied (mem : MemSize) (dir : DmaDir) (n i : Nat) (b : SffBusmaster) (w : DmaStore) :
    ∃ more, (bytewise mem dir n i b w).2.copied = w.copied ++ more ∧
      ∀ p ∈ more, i ≤ p.2 ∧ p.2 < i + n := by
  induction n generalizing i b w with
  | zero => exact ⟨[], by simp [bytewise], by simp⟩
  | succ n ih =>
    obtain ⟨more, eq, bound⟩ := ih (i + 1) (nextByte mem dir i b w).1 (nextByte mem dir i b w).2
    have first : ∃ one, (nextByte mem dir i b w).2.copied = w.copied ++ one ∧
        ∀ p ∈ one, p.2 = i := by
      unfold nextByte
      dsimp only
      split
      · refine ⟨[(b.addr, i)], ?_, by simp⟩
        cases dir <;> rfl
      · exact ⟨[], by simp, by simp⟩
    obtain ⟨one, start, same⟩ := first
    refine ⟨one ++ more, by rw [bytewise, eq, start, List.append_assoc], ?_⟩
    intro p member
    rcases List.mem_append.mp member with inOne | inMore
    · rw [same p inOne]
      omega
    · have := bound p inMore
      omega

/-- A piece adds the addresses of memory that it covers. -/
theorem copyPiece_copied (mem : MemSize) (dir : DmaDir) (addr i n : Nat) (w : DmaStore)
    (near : addr < mem.bytes → addr + n < 4294967296) :
    ∃ more, (w.copyPiece mem dir addr i n).copied = w.copied ++ more ∧
      ∀ p ∈ more, addr ≤ p.1 ∧ p.1 < mem.bytes ∧ p.1 < addr + n ∧ i ≤ p.2 ∧ p.2 < i + n := by
  unfold DmaStore.copyPiece
  by_cases low : addr < mem.bytes
  · have room := near low
    simp only [if_pos low, Nat.mod_eq_of_lt room]
    have moved (m : Nat) : (w.copy dir addr i m).copied =
        w.copied ++ (List.range m).map fun j : Nat => (addr + j, i + j) := by
      cases dir <;> rfl
    refine ⟨_, moved _, ?_⟩
    intro p member
    obtain ⟨j, inside, rfl⟩ := List.mem_map.mp member
    have less := List.mem_range.mp inside
    dsimp only
    split at less <;> omega
  · rw [if_neg low]
    exact ⟨[], by simp, by simp⟩

end Stream

/-! ## Marks -/

section Marks

variable {mem : MemSize}

theorem mark_dirty (start g : Nat) (k : DmaMarks) :
    (k.mark start).dirty g = true ↔ g = start / 64 ∨ k.dirty g = true := by
  have same : (k.mark start).dirty = fun g => if g = start / 64 then true else k.dirty g := by
    unfold DmaMarks.mark
    dsimp only
    split <;> rfl
  rw [same]
  dsimp only
  by_cases here : g = start / 64
  · rw [if_pos here]
    exact ⟨fun _ => .inl here, fun _ => rfl⟩
  · rw [if_neg here]
    exact ⟨.inr, fun old => old.resolve_left here⟩

/-- The granules that a range marks. -/
theorem invalidateLoop_dirty {start stop : Nat} {k k' : DmaMarks} (first : start % 64 = 0)
    (last : stop % 64 = 0) (done : invalidateLoop mem start stop k = .ok k') (g : Nat) :
    k'.dirty g = true ↔ k.dirty g = true ∨ (start / 64 ≤ g ∧ g ≤ stop / 64) := by
  fun_induction invalidateLoop mem start stop k with
  | case1 => cases done
  | case2 start k low inside ih =>
    rw [ih (by omega) done, mark_dirty]
    constructor
    · rintro ((rfl | old) | later)
      · exact .inr (by omega)
      · exact .inl old
      · exact .inr (by omega)
    · rintro (old | later)
      · exact .inl (.inr old)
      · by_cases here : g = start / 64
        · exact .inl (.inl here)
        · exact .inr (by omega)
  | case3 start k high =>
    cases done
    constructor
    · exact .inl
    · rintro (old | later)
      · exact old
      · omega

/-- When a range stays inside the page table. -/
theorem invalidateLoop_ok {start stop : Nat} (k : DmaMarks) (first : start % 64 = 0)
    (last : stop % 64 = 0) :
    (∃ k', invalidateLoop mem start stop k = .ok k') ↔
      (start ≤ stop → stop / 4096 < mem.pages) := by
  fun_induction invalidateLoop mem start stop k with
  | case1 start k low outside =>
    constructor
    · rintro ⟨k', done⟩
      cases done
    · intro inside
      have := inside low
      omega
  | case2 start k low inside ih =>
    rw [ih (by omega)]
    constructor
    · intro more _
      by_cases next : start + 64 ≤ stop
      · exact more next
      · have : stop = start := by omega
        rw [this]
        omega
    · intro all _
      exact all low
  | case3 start k high =>
    exact ⟨fun _ low => absurd low high, fun _ => ⟨k, rfl⟩⟩

theorem roundMarks_ok (dir : DmaDir) (size addr : Nat) (k : DmaMarks) :
    (∃ k', roundMarks mem dir size addr k = .ok k') ↔
      (dir = .read → MarksInside mem addr size) := by
  cases dir with
  | read =>
    unfold roundMarks memInvalidateRange
    dsimp only
    rw [invalidateLoop_ok k (by omega) (by omega)]
    exact ⟨fun inside _ => inside, fun inside => inside rfl⟩
  | write => exact ⟨fun _ same => (by cases same), fun _ => ⟨k, rfl⟩⟩

/-- Marks are kept, and the ones of a region in memory cover the piece. -/
theorem roundMarks_dirty {dir : DmaDir} {size addr : Nat} {k k' : DmaMarks}
    (done : roundMarks mem dir size addr k = .ok k') :
    (∀ g, k.dirty g = true → k'.dirty g = true) ∧
      (dir = .read → addr < mem.bytes → size < 2147483648 → ∀ a, addr ≤ a → a < addr + size →
        k'.dirty (a / 64) = true) := by
  have small := mem.bytes_lt
  cases dir with
  | read =>
    unfold roundMarks memInvalidateRange at done
    have dirty := invalidateLoop_dirty (by omega) (by omega) done
    refine ⟨fun g old => (dirty g).mpr (.inl old), fun _ inside short a low high => ?_⟩
    refine (dirty (a / 64)).mpr (.inr ?_)
    omega
  | write =>
    cases done
    exact ⟨fun _ old => old, fun same => (by cases same)⟩

end Marks

/-! ## Rounds of the loop -/

section Rounds

variable {mem : MemSize} {dir : DmaDir} {size : Nat}

/-- A sequence ends well when both parts do. -/
theorem bind_eq_ok {α β : Type} {x : Except DmaFault α} {f : α → Except DmaFault β} {r : β} :
    x >>= f = .ok r ↔ ∃ a, x = .ok a ∧ f a = .ok r := by
  cases x with
  | error e =>
    refine ⟨fun bad => (by cases bad), ?_⟩
    rintro ⟨a, bad, -⟩
    cases bad
  | ok a =>
    refine ⟨fun eq => ⟨a, rfl, eq⟩, ?_⟩
    rintro ⟨a, same, eq⟩
    cases same
    exact eq

theorem map_eq_ok {α β : Type} {x : Except DmaFault α} {f : α → β} {r : β} :
    x.map f = .ok r ↔ ∃ a, x = .ok a ∧ r = f a := by
  cases x with
  | error e =>
    refine ⟨fun bad => (by cases bad), ?_⟩
    rintro ⟨a, bad, -⟩
    cases bad
  | ok a =>
    constructor
    · intro eq
      cases eq
      exact ⟨a, rfl, rfl⟩
    · rintro ⟨a, same, rfl⟩
      cases same
      rfl

theorem roundEnd_ok {b b' : SffBusmaster} {ram : Nat → BitVec 8} :
    roundEnd mem b ram = .ok b' ↔
      (b.count = 0 → b.eot = false → b.ptrCur + 8 ≤ mem.bytes) ∧ b' = b.finish ram := by
  unfold roundEnd SffBusmaster.finish SffBusmaster.nextAddr
  by_cases done : b.count = 0
  · rw [if_pos done, if_pos done]
    cases last : b.eot with
    | true =>
      rw [if_pos rfl, if_pos rfl]
      constructor
      · intro eq
        cases eq
        exact ⟨fun _ more => (by cases more), rfl⟩
      · rintro ⟨-, rfl⟩
        rfl
    | false =>
      rw [if_neg Bool.false_ne_true, if_neg Bool.false_ne_true]
      by_cases outside : mem.bytes < b.ptrCur + 8
      · rw [if_pos outside]
        refine ⟨fun eq => (by cases eq), ?_⟩
        rintro ⟨inside, -⟩
        have := inside done rfl
        omega
      · rw [if_neg outside]
        constructor
        · intro eq
          cases eq
          exact ⟨fun _ _ => by omega, rfl⟩
        · rintro ⟨-, rfl⟩
          rfl
  · rw [if_neg done, if_neg done]
    constructor
    · intro eq
      cases eq
      exact ⟨fun zero => absurd zero done, rfl⟩
    · rintro ⟨-, rfl⟩
      rfl

/-- A round of the loop, with its parts in sequence. -/
theorem transferLoop_succ {fuel i n : Nat} {b : SffBusmaster} {w : DmaStore} {k : DmaMarks}
    (before : i < size) (len : n = min b.count (size - i)) :
    transferLoop mem dir size (fuel + 1) i b w k =
      if b.count < size - i ∧ b.eot = true then .error .fatal
      else
        roundMarks mem dir size b.addr k >>= fun k' =>
        roundEnd mem (b.forward n) (w.copyPiece mem dir b.addr i n).ram >>= fun b' =>
        transferLoop mem dir size fuel (i + n) b' (w.copyPiece mem dir b.addr i n) k' := by
  have count : (if b.count < size - i then b.count else size - i) = n := by
    rw [len]
    split <;> omega
  rw [transferLoop, if_pos before, count]
  rfl

/-- A round that ends well: the table is long enough, its marks are made, and the next descriptor
lies in memory. -/
theorem transferLoop_round {fuel i n : Nat} {b : SffBusmaster} {w : DmaStore} {k : DmaMarks}
    {r : SffBusmaster × DmaStore × DmaMarks} (before : i < size)
    (len : n = min b.count (size - i)) :
    transferLoop mem dir size (fuel + 1) i b w k = .ok r ↔
      (b.eot = true → size - i ≤ b.count) ∧
      (n = b.count → b.eot = false → b.ptrCur + 8 ≤ mem.bytes) ∧
      ∃ k', roundMarks mem dir size b.addr k = .ok k' ∧
        transferLoop mem dir size fuel (i + n)
          ((b.forward n).finish (w.copyPiece mem dir b.addr i n).ram)
          (w.copyPiece mem dir b.addr i n) k' = .ok r := by
  rw [transferLoop_succ before len]
  have ends : ((b.forward n).count = 0 ↔ n = b.count) := by
    change b.count - n = 0 ↔ _
    omega
  by_cases short : b.count < size - i ∧ b.eot = true
  · rw [if_pos short]
    refine ⟨fun bad => (by cases bad), fun h => ?_⟩
    have := h.1 short.2
    omega
  rw [if_neg short]
  constructor
  · intro done
    obtain ⟨k', made, rest⟩ := bind_eq_ok.mp done
    obtain ⟨b', ended, last⟩ := bind_eq_ok.mp rest
    obtain ⟨next, rfl⟩ := roundEnd_ok.mp ended
    refine ⟨fun eot => ?_, fun whole => next (ends.mpr whole), k', made, last⟩
    by_contra less
    exact short ⟨by omega, eot⟩
  · rintro ⟨-, next, k', made, rest⟩
    refine bind_eq_ok.mpr ⟨k', made, bind_eq_ok.mpr ⟨_, ?_, rest⟩⟩
    exact roundEnd_ok.mpr ⟨fun whole => next (ends.mp whole), rfl⟩

theorem transferLoop_over {fuel i : Nat} (b : SffBusmaster) (w : DmaStore) (k : DmaMarks)
    (all : size ≤ i) : transferLoop mem dir size fuel i b w k = .ok (b, w, k) := by
  cases fuel with
  | zero => rw [transferLoop, if_neg (by omega)]
  | succ fuel => rw [transferLoop, if_neg (by omega)]

/-- The condition on a position before the end, as one round and what follows. -/
theorem serves_round {i n : Nat} {b : SffBusmaster} {w : DmaStore} (before : i < size)
    (len : n = min b.count (size - i)) :
    Serves mem dir size i b w ↔
      (b.eot = true → size - i ≤ b.count) ∧
      (mem.bytes ≤ b.addr → b.addr + n ≤ 4294967296) ∧
      (dir = .read → MarksInside mem b.addr size) ∧
      (n = b.count → b.eot = false → b.ptrCur + 8 ≤ mem.bytes) ∧
      Serves mem dir size (i + n) (bytewise mem dir n i b w).1 (bytewise mem dir n i b w).2 := by
  constructor
  · intro served
    cases served with
    | passed all => omega
    | piece _ same long far marks next rest =>
      rw [← len] at same
      subst same
      exact ⟨long, far, marks, next, rest⟩
  · rintro ⟨long, far, marks, next, rest⟩
    exact .piece before len long far marks next rest

theorem load_ready {b : SffBusmaster} (ram : Nat → BitVec 8)
    (inside : b.ptrCur + 8 ≤ mem.bytes) : (b.load ram).Ready mem := by
  have small : (ramDword ram (b.ptrCur + 4) &&& 0xfffe).toNat ≤ 65534 := by
    rw [BitVec.toNat_and]
    exact Nat.and_le_right
  refine ⟨by omega, ?_, ?_, ?_⟩
  · change 0 < if _ = 0 then _ else _
    split <;> omega
  · change (if _ = 0 then _ else _) ≤ 65536
    split <;> omega
  · exact (ramDword ram b.ptrCur &&& ~~~1).isLt

/-- After a round the channel can go on, unless its table is over. -/
theorem round_ready {i n : Nat} {b : SffBusmaster} (ram : Nat → BitVec 8) (ready : b.Ready mem)
    (len : n = min b.count (size - i)) (long : b.eot = true → size - i ≤ b.count)
    (next : n = b.count → b.eot = false → b.ptrCur + 8 ≤ mem.bytes) :
    ((i + n < size) ∨ ((b.forward n).finish ram).Active) →
      ((b.forward n).finish ram).Ready mem := by
  have most := ready.most
  have memory := ready.memory
  have off (s : BitVec 8) : (s &&& ~~~1) &&& 1 = 0 := by revert s; decide
  unfold SffBusmaster.finish
  by_cases done : (b.forward n).count = 0
  · have whole : n = b.count := by
      change b.count - n = 0 at done
      omega
    rw [if_pos done]
    by_cases last : (b.forward n).eot = true
    · rw [if_pos last]
      have := long last
      rintro (more | active)
      · omega
      · exact absurd (off b.status) active
    · rw [if_neg last]
      intro _
      exact load_ready ram (next whole (Bool.eq_false_of_not_eq_true last))
  · rw [if_neg done]
    intro _
    exact ⟨memory, Nat.pos_of_ne_zero done, by change b.count - n ≤ 65536; omega,
      Nat.mod_lt _ (by omega)⟩

/-- What the rounds of a transfer leave behind: a channel that can go on, marks that are kept, and
copied addresses that are all in memory and marked. -/
structure RoundsLeave (mem : MemSize) (dir : DmaDir) (size i : Nat) (w : DmaStore) (k : DmaMarks)
    (r : SffBusmaster × DmaStore × DmaMarks) : Prop where
  ready : r.1.Active → r.1.Ready mem
  kept : ∀ g, k.dirty g = true → r.2.2.dirty g = true
  copied : ∃ more, r.2.1.copied = w.copied ++ more ∧
    ∀ p ∈ more, p.1 < mem.bytes ∧ i ≤ p.2 ∧ p.2 < size ∧
      (dir = .read → r.2.2.dirty (p.1 / 64) = true)

theorem transferLoop_leaves {fuel i : Nat} {b : SffBusmaster} {w : DmaStore} {k : DmaMarks}
    {r : SffBusmaster × DmaStore × DmaMarks} (short : size < 2147483648)
    (enough : size - i ≤ fuel) (ready : i < size ∨ b.Active → b.Ready mem)
    (done : transferLoop mem dir size fuel i b w k = .ok r) :
    RoundsLeave mem dir size i w k r := by
  induction fuel generalizing i b w k with
  | zero =>
    rw [transferLoop_over b w k (by omega)] at done
    cases done
    exact ⟨fun active => ready (.inr active), fun _ old => old, [], by simp, by simp⟩
  | succ fuel ih =>
    by_cases before : i < size
    · obtain ⟨n, len⟩ : ∃ n, n = min b.count (size - i) := ⟨_, rfl⟩
      have able := ready (.inl before)
      have small := mem.bytes_lt
      obtain ⟨memory, some, most, addr⟩ := able
      obtain ⟨long, next, k1, made, rest⟩ := (transferLoop_round before len).mp done
      obtain ⟨ready', kept', more, eq, all⟩ :=
        ih (by omega) (round_ready _ ⟨memory, some, most, addr⟩ len long next) rest
      obtain ⟨kept, marked⟩ := roundMarks_dirty made
      obtain ⟨piece, start, bound⟩ :=
        copyPiece_copied mem dir b.addr i n w (by omega)
      refine ⟨ready', fun g old => kept' g (kept g old), piece ++ more,
        by rw [eq, start, List.append_assoc], ?_⟩
      intro p member
      rcases List.mem_append.mp member with inPiece | inMore
      · obtain ⟨low, inside, high, from_, to_⟩ := bound p inPiece
        refine ⟨inside, from_, by omega, fun reads => kept' _ ?_⟩
        exact marked reads (by omega) short p.1 low (by omega)
      · obtain ⟨inside, from_, to_, dirty⟩ := all p inMore
        exact ⟨inside, by omega, to_, dirty⟩
    · rw [transferLoop_over b w k (by omega)] at done
      cases done
      exact ⟨fun active => ready (.inr active), fun _ old => old, [], by simp, by simp⟩

/-- A region outside memory that runs past the end of the address space: the stream goes on at
address 0, the code passes over the whole piece. -/
theorem bytewise_wraps (dir : DmaDir) {i n m : Nat} {b : SffBusmaster} (w : DmaStore) (ready : b.Ready mem)
    (most : n ≤ b.count) (outside : mem.bytes ≤ b.addr) (wraps : 4294967296 < b.addr + n)
    (all : n ≤ m) :
    ∃ p more, (bytewise mem dir m i b w).2.copied = w.copied ++ p :: more ∧ p.2 < i + n := by
  have memory := ready.memory
  have addr := ready.addr
  obtain ⟨j, top⟩ : ∃ j, b.addr + j = 4294967296 := ⟨4294967296 - b.addr, by omega⟩
  obtain ⟨l, rfl⟩ : ∃ l, m = j + (l + 1) := ⟨m - j - 1, by omega⟩
  have skipped : w.copyPiece mem dir b.addr i j = w := by
    rw [DmaStore.copyPiece, if_neg (by omega)]
  rw [bytewise_add, bytewise_inside i w addr (by omega) (by omega) (by omega), skipped, bytewise]
  have zero : (b.forward j).addr = 0 := by
    change (b.addr + j) % 4294967296 = 0
    omega
  have first : (nextByte mem dir (i + j) (b.forward j) w).2.copied = w.copied ++ [(0, i + j)] := by
    unfold nextByte
    dsimp only
    rw [zero, if_pos memory]
    cases dir <;> rfl
  obtain ⟨more, eq, -⟩ := bytewise_copied mem dir l (i + j + 1)
    (nextByte mem dir (i + j) (b.forward j) w).1 (nextByte mem dir (i + j) (b.forward j) w).2
  refine ⟨(0, i + j), more, ?_, by dsimp only; omega⟩
  rw [eq, first, List.append_assoc, List.singleton_append]

/-- The loop follows the stream exactly when the table serves it. -/
theorem transferLoop_exact (dir : DmaDir) {fuel i : Nat} {b : SffBusmaster} (w : DmaStore)
    {k : DmaMarks}
    (short : size < 2147483648) (enough : size - i ≤ fuel)
    (ready : i < size ∨ b.Active → b.Ready mem) :
    (∃ k', transferLoop mem dir size fuel i b w k =
      .ok ((bytewise mem dir (size - i) i b w).1, (bytewise mem dir (size - i) i b w).2, k')) ↔
      Serves mem dir size i b w := by
  induction fuel generalizing i b w k with
  | zero =>
    rw [show size - i = 0 by omega, bytewise, transferLoop_over b w k (by omega)]
    exact ⟨fun _ => .passed (by omega), fun _ => ⟨k, rfl⟩⟩
  | succ fuel ih =>
    by_cases before : i < size
    · obtain ⟨n, len⟩ : ∃ n, n = min b.count (size - i) := ⟨_, rfl⟩
      have able := ready (.inl before)
      obtain ⟨memory, some, most, addr⟩ := ready (.inl before)
      have small := mem.bytes_lt
      rw [serves_round before len]
      by_cases far : mem.bytes ≤ b.addr → b.addr + n ≤ 4294967296
      · have piece : bytewise mem dir n i b w = _ :=
          bytewise_piece i w addr (by omega) (by omega) (by omega) far
        have whole : bytewise mem dir (size - i) i b w = bytewise mem dir (size - (i + n)) (i + n)
            (bytewise mem dir n i b w).1 (bytewise mem dir n i b w).2 := by
          rw [← bytewise_add, show n + (size - (i + n)) = size - i by omega]
        rw [whole, piece]
        dsimp only
        constructor
        · rintro ⟨k', done⟩
          obtain ⟨long, next, k1, made, rest⟩ := (transferLoop_round before len).mp done
          refine ⟨long, far, (roundMarks_ok ..).mp ⟨k1, made⟩, next, ?_⟩
          exact (ih _ (by omega) (round_ready _ able len long next)).mp ⟨k', rest⟩
        · rintro ⟨long, -, marks, next, rest⟩
          obtain ⟨k1, made⟩ := (roundMarks_ok dir size b.addr k).mpr marks
          obtain ⟨k', done⟩ :=
            (ih _ (k := k1) (by omega) (round_ready _ able len long next)).mpr rest
          exact ⟨k', (transferLoop_round before len).mpr ⟨long, next, k1, made, done⟩⟩
      · refine ⟨?_, fun served => absurd served.2.1 far⟩
        rintro ⟨k', done⟩
        obtain ⟨long, next, k1, made, rest⟩ := (transferLoop_round before len).mp done
        obtain ⟨-, -, later, log, bound⟩ :=
          transferLoop_leaves short (by omega) (round_ready _ able len long next) rest
        obtain ⟨p, more, stream, early⟩ := @bytewise_wraps mem dir i n (size - i) b w able
          (by omega) (by omega) (by omega) (by omega)
        have skipped : w.copyPiece mem dir b.addr i n = w := by
          rw [DmaStore.copyPiece, if_neg (by omega)]
        rw [skipped] at log
        have same := List.append_cancel_left (stream.symm.trans log)
        have := (bound p (by rw [← same]; exact List.mem_cons_self)).2.1
        omega
    · rw [show size - i = 0 by omega, bytewise, transferLoop_over b w k (by omega)]
      exact ⟨fun _ => .passed (by omega), fun _ => ⟨k, rfl⟩⟩

end Rounds

/-! ## Transfers -/

section Transfers

variable {mem : MemSize} {dir : DmaDir} {size : Nat} {b : SffBusmaster} {ram buf : Nat → BitVec 8}
  {k : DmaMarks}

theorem scatterTransfer_iff (short : size < 2147483648) (ready : b.Active → b.Ready mem) :
    TransferExact mem dir size b ram buf k ↔
      (b.Active → Serves mem dir size 0 b ⟨ram, buf, []⟩) := by
  unfold TransferExact busMasterData
  by_cases active : b.Active
  · rw [if_pos active, if_pos active]
    have able : 0 < size ∨ b.Active → b.Ready mem := fun _ => ready active
    have exact_ := transferLoop_exact dir ⟨ram, buf, []⟩ (k := k) short
      (Nat.sub_le size 0) able
    rw [Nat.sub_zero] at exact_
    rw [← exact_]
    constructor
    · rintro ⟨e, done, -, same, -⟩ _
      obtain ⟨⟨b', w', k'⟩, loop, rfl⟩ := map_eq_ok.mp done
      rw [← same]
      exact ⟨k', loop⟩
    · intro served
      obtain ⟨k', loop⟩ := served active
      refine ⟨_, map_eq_ok.mpr ⟨_, loop, rfl⟩, rfl, rfl, ?_⟩
      obtain ⟨-, -, more, log, all⟩ := transferLoop_leaves short (Nat.sub_le size 0) able loop
      intro p member
      rw [List.nil_append] at log
      obtain ⟨inside, -, position, dirty⟩ := all p (by rw [← log]; exact member)
      exact ⟨inside, position, dirty⟩
  · rw [if_neg active, if_neg active]
    exact ⟨fun _ busy => absurd busy active, fun _ => rfl⟩

/-- A transfer leaves an active channel that can go on. -/
theorem busMasterData_ready {e : DmaEnd} (short : size < 2147483648)
    (ready : b.Active → b.Ready mem) (done : busMasterData mem dir size b ram buf k = .ok e) :
    e.bus.Active → e.bus.Ready mem := by
  unfold busMasterData at done
  by_cases active : b.Active
  · rw [if_pos active] at done
    obtain ⟨⟨b', w', k'⟩, loop, rfl⟩ := map_eq_ok.mp done
    exact (transferLoop_leaves short (Nat.sub_le size 0) (fun _ => ready active) loop).ready
  · rw [if_neg active] at done
    cases done
    exact ready

end Transfers

/-! ## Runs -/

namespace DmaSystem

variable {mem : MemSize}

/-- Each active channel can move its next byte. -/
def Live (mem : MemSize) (s : DmaSystem) : Prop :=
  ∀ channel, (s.bus channel).Active → (s.bus channel).Ready mem

theorem live_init (ram : Nat → BitVec 8) (marks : DmaMarks) : (init ram marks).Live mem :=
  fun _ active => absurd (show (0 : BitVec 8) &&& 1 = 0 from rfl) active

theorem live_setBus {s : DmaSystem} {channel : Fin 2} {b : SffBusmaster} (live : s.Live mem)
    (ready : b.Active → b.Ready mem) : (s.setBus channel b).Live mem := by
  intro c active
  unfold setBus at active ⊢
  by_cases same : c = channel
  · simp only [if_pos same] at active ⊢
    exact ready active
  · simp only [if_neg same] at active ⊢
    exact live c active

end DmaSystem

namespace SffBusmaster

variable {mem : MemSize} {ram : Nat → BitVec 8} {b : SffBusmaster}

/-- `Ready` is about the region alone. -/
theorem Ready.congr {b' : SffBusmaster} (ready : b.Ready mem) (count : b'.count = b.count)
    (addr : b'.addr = b.addr) : b'.Ready mem :=
  ⟨ready.memory, by rw [count]; exact ready.some, by rw [count]; exact ready.most,
    by rw [addr]; exact ready.addr⟩

/-- The first descriptor of a channel that starts. -/
def started (mem : MemSize) (ram : Nat → BitVec 8) (val : BitVec 8) (b : SffBusmaster) :
    Except DmaFault SffBusmaster :=
  if val &&& 1 ≠ 0 ∧ b.command &&& 1 = 0 then
    ({ b with ptrCur := b.ptr.toNat } : SffBusmaster).nextAddr mem ram >>= fun c =>
      .ok { c with status := c.status ||| 1 }
  else .ok b

/-- The other half of the command register. -/
def commanded (val : BitVec 8) (b : SffBusmaster) : SffBusmaster :=
  { (if val &&& 1 = 0 ∧ b.command &&& 1 ≠ 0 then { b with status := b.status &&& ~~~1 } else b) with
    command := val }

theorem write_command (val : BitVec 8) :
    b.write mem ram 0 val = b.started mem ram val >>= fun c => .ok (c.commanded val) := by
  unfold write started
  rw [if_pos rfl]
  by_cases start : val &&& 1 ≠ 0 ∧ b.command &&& 1 = 0
  · rw [if_pos start, if_pos start]
    dsimp only
    generalize ({ b with ptrCur := b.ptr.toNat } : SffBusmaster).nextAddr mem ram = first
    cases first <;> rfl
  · rw [if_neg start, if_neg start]
    rfl

theorem started_ok {val : BitVec 8} {c : SffBusmaster} :
    b.started mem ram val = .ok c ↔
      (val &&& 1 ≠ 0 ∧ b.command &&& 1 = 0 ∧ b.ptr.toNat + 8 ≤ mem.bytes ∧
        c = { ({ b with ptrCur := b.ptr.toNat } : SffBusmaster).load ram with
          status := b.status ||| 1 }) ∨
      (¬(val &&& 1 ≠ 0 ∧ b.command &&& 1 = 0) ∧ c = b) := by
  unfold started
  by_cases start : val &&& 1 ≠ 0 ∧ b.command &&& 1 = 0
  · rw [if_pos start, bind_eq_ok]
    unfold nextAddr
    constructor
    · rintro ⟨a, loaded, eq⟩
      by_cases outside : mem.bytes < b.ptr.toNat + 8
      · rw [if_pos outside] at loaded
        cases loaded
      · rw [if_neg outside] at loaded
        cases loaded
        exact .inl ⟨start.1, start.2, by omega, (Except.ok.inj eq).symm⟩
    · rintro (⟨-, -, inside, rfl⟩ | ⟨other, -⟩)
      · exact ⟨_, if_neg (by dsimp only; omega), rfl⟩
      · exact absurd start other
  · rw [if_neg start]
    constructor
    · intro eq
      exact .inr ⟨start, (Except.ok.inj eq).symm⟩
    · rintro (⟨one, two, -⟩ | ⟨-, rfl⟩)
      · exact absurd ⟨one, two⟩ start
      · rfl

/-- When a register write does not fault. -/
theorem write_ok (reg : Nat) (val : BitVec 8) :
    (∃ r, b.write mem ram reg val = .ok r) ↔
      (reg = 0 → val &&& 1 ≠ 0 → b.command &&& 1 = 0 → b.ptr.toNat + 8 ≤ mem.bytes) := by
  by_cases command : reg = 0
  · subst command
    rw [write_command]
    constructor
    · rintro ⟨r, done⟩ - one two
      obtain ⟨c, loaded, -⟩ := bind_eq_ok.mp done
      obtain ⟨-, -, inside, -⟩ | ⟨other, -⟩ := started_ok.mp loaded
      · exact inside
      · exact absurd ⟨one, two⟩ other
    · intro inside
      by_cases start : val &&& 1 ≠ 0 ∧ b.command &&& 1 = 0
      · exact ⟨_, bind_eq_ok.mpr ⟨_, started_ok.mpr
          (.inl ⟨start.1, start.2, inside rfl start.1 start.2, rfl⟩), rfl⟩⟩
      · exact ⟨_, bind_eq_ok.mpr ⟨_, started_ok.mpr (.inr ⟨start, rfl⟩), rfl⟩⟩
  · refine ⟨fun _ zero => absurd zero command, fun _ => ?_⟩
    unfold write
    rw [if_neg command]
    repeat' split
    all_goals exact ⟨_, rfl⟩

/-- A status write keeps the active bit. -/
theorem status_active (s val : BitVec 8) :
    ((val &&& 0x60) ||| ((s &&& ~~~val) &&& 6) ||| (s &&& 1)) &&& 1 = s &&& 1 := by
  refine BitVec.eq_of_getLsbD_eq fun i small => ?_
  interval_cases i <;> simp

theorem write_ready {reg : Nat} {val : BitVec 8} {r : SffBusmaster} (ready : b.Active → b.Ready mem)
    (done : b.write mem ram reg val = .ok r) : r.Active → r.Ready mem := by
  by_cases command : reg = 0
  · subst command
    rw [write_command] at done
    obtain ⟨c, loaded, eq⟩ := bind_eq_ok.mp done
    cases eq
    have able : c.Active → c.Ready mem := by
      obtain ⟨-, -, inside, rfl⟩ | ⟨-, rfl⟩ := started_ok.mp loaded
      · intro _
        exact (load_ready ram inside).congr rfl rfl
      · exact ready
    intro active
    unfold commanded at active ⊢
    by_cases stop : val &&& 1 = 0 ∧ c.command &&& 1 ≠ 0
    · have off (s : BitVec 8) : (s &&& ~~~1) &&& 1 = 0 := by revert s; decide
      rw [if_pos stop] at active
      exact absurd (off c.status) active
    · rw [if_neg stop] at active ⊢
      exact (able active).congr rfl rfl
  · unfold write at done
    rw [if_neg command] at done
    by_cases two : reg = 2
    · rw [if_pos two] at done
      cases done
      intro active
      have same : b.Active := by
        unfold Active at active ⊢
        rwa [status_active] at active
      exact (ready same).congr rfl rfl
    · rw [if_neg two] at done
      repeat' split at done
      all_goals
        cases done
        intro active
        exact (ready active).congr rfl rfl

end SffBusmaster

namespace DmaSystem

variable {mem : MemSize}

theorem step_live {s t : DmaSystem} {op : DmaOp} (live : s.Live mem)
    (done : s.step mem op = .ok t) :
    t.Live mem := by
  cases op with
  | write channel reg val =>
    obtain ⟨b, written, rfl⟩ := map_eq_ok.mp done
    exact live_setBus live (SffBusmaster.write_ready (live channel) written)
  | store addr val =>
    cases done
    exact live
  | irq channel =>
    cases done
    have bit (s : BitVec 8) : (s ||| 4) &&& 1 = s &&& 1 := by revert s; decide
    refine live_setBus live fun active => ?_
    have same : (s.bus channel).Active := by
      unfold SffBusmaster.Active at active ⊢
      rwa [bit] at active
    exact (live channel same).congr rfl rfl
  | transfer channel dir size buf =>
    obtain ⟨e, moved, rfl⟩ := map_eq_ok.mp done
    exact live_setBus live (busMasterData_ready size.isLt (live channel) moved)
  | marks marks =>
    cases done
    exact live

/-- An access of a live system is faithful exactly when it is served. -/
theorem stepExact_iff {s : DmaSystem} (live : s.Live mem) (op : DmaOp) :
    s.StepExact mem op ↔ s.StepServed mem op := by
  cases op with
  | write channel reg val =>
    have ok : (∃ t, s.step mem (.write channel reg val) = .ok t) ↔
        ∃ r, (s.bus channel).write mem s.ram reg val = .ok r := by
      constructor
      · rintro ⟨t, done⟩
        obtain ⟨b, written, -⟩ := map_eq_ok.mp done
        exact ⟨b, written⟩
      · rintro ⟨r, written⟩
        exact ⟨_, map_eq_ok.mpr ⟨r, written, rfl⟩⟩
    change (∃ t, s.step mem (.write channel reg val) = .ok t) ↔ _
    rw [ok, SffBusmaster.write_ok]
    cases reg with
    | zero => exact ⟨fun inside => inside rfl, fun inside _ => inside⟩
    | succ reg => exact ⟨fun _ => trivial, fun _ zero => absurd zero (by omega)⟩
  | store addr val => exact ⟨fun _ => trivial, fun _ => ⟨_, rfl⟩⟩
  | irq channel => exact ⟨fun _ => trivial, fun _ => ⟨_, rfl⟩⟩
  | transfer channel dir size buf => exact scatterTransfer_iff size.isLt (live channel)
  | marks marks => exact ⟨fun _ => trivial, fun _ => ⟨_, rfl⟩⟩

theorem runExact_of_live {s : DmaSystem} (live : s.Live mem) (ops : List DmaOp) :
    s.RunExact mem ops ↔ s.RunServed mem ops := by
  induction ops generalizing s with
  | nil => exact Iff.rfl
  | cons op ops ih =>
    refine and_congr (stepExact_iff live op) (forall_congr' fun t => ?_)
    exact imp_congr_right fun done => ih (step_live live done)

end DmaSystem

/-- From power-on, in any order of register writes, memory writes and transfers, every transfer
stores or fetches its bytes along the regions of the table, inside memory and with every stored byte
marked, exactly when each descriptor that is read lies in memory, no table ends before its transfer,
no region outside memory wraps around, and no marked range leaves the page table. -/
theorem scatterGather_iff (mem : MemSize) (ram : Nat → BitVec 8) (marks : DmaMarks)
    (ops : List DmaOp) :
    (DmaSystem.init ram marks).RunExact mem ops ↔ (DmaSystem.init ram marks).RunServed mem ops :=
  DmaSystem.runExact_of_live (DmaSystem.live_init ram marks) ops

/-- The memory of the guest below: at address 0 the last region of a table, two bytes at 0x1000. -/
def shortTable (a : Nat) : BitVec 8 :=
  if a = 1 then 0x10 else if a = 4 then 2 else if a = 7 then 0x80 else 0

/-- A drive moves four bytes through a table of two: the emulator ends. -/
theorem not_runExact_shortTable :
    ¬(DmaSystem.init shortTable ⟨fun _ => false, fun _ => false, []⟩).RunExact ⟨640, by decide⟩
      [.write 0 0 1, .transfer 0 .read 4 fun _ => 0] := by
  intro exact_
  obtain ⟨⟨t, started⟩, rest⟩ := exact_
  obtain ⟨moved, -⟩ := rest t started
  cases started
  change TransferExact _ _ _ _ _ _ _ at moved
  rw [TransferExact, if_pos (by decide)] at moved
  obtain ⟨e, done, -⟩ := moved
  cases done

end PCemWeb
