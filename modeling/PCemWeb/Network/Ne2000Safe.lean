import PCemWeb.Network.Ne2000Card

/-!
# Where the NE2000 leaves its memory

For each operation, which registers take one of its accesses out of the packet memory or of the
address ROM. A word of the data port runs over the end of either, and the pages that the guest
writes are used as they are. Received frames stay inside on a ring with CURR and BNRY inside it.
-/

namespace PCemWeb.Network

open PCemWeb.Lib

namespace Ne2000

variable (s : Ne2000)

/-- The record of a frame ends before page `0xc0`; if it wraps, it has CURR before PSTOP, and what
is left of it past PSTOP, with the checksum, ends before page `0xc0` from PSTART on. -/
def RecordFits (n : Nat) : Prop :=
  0x40 ≤ s.currPage ∧
    if s.Wraps n then s.currPage < s.pageStop ∧ s.pageStop ≤ 0xc0 ∧ 0x40 ≤ s.pageStart ∧
      s.pageStart * 256 + max n 60 + 8 ≤ memEnd + (s.pageStop - s.currPage) * 256
    else s.currPage * 256 + 4 + max n 60 ≤ memEnd

/-- The frame of a loopback ends before page `0xc0`, and so do the four bytes that a frame which
wraps is read past its end. -/
def SourceFits (page n : Nat) : Prop :=
  0x40 ≤ page ∧ page * 256 + max n 60 + (if s.Wraps n then 4 else 0) ≤ memEnd

/-- What a loopback needs: a page of the packet memory once the filter looks at the frame, and room
for the frame on both sides once it is accepted. -/
def LoopFits (page n : Nat) (buf : Nat → Byte) : Prop :=
  (s.reaches n = true → s.rcrPromisc = false → 0x40 ≤ page ∧ page < 0xc0) ∧
    (s.accepts buf n = true → s.RecordFits n ∧ s.SourceFits page n)

end Ne2000

namespace Ne2000Card

variable (s : Ne2000Card)

/-- What the start-transmit bit needs. -/
def TransmitFits (ready : Bool) : Prop :=
  (s.tcrLoopCntl = 0 → ready = true → 14 ≤ s.txBytes → s.txBytes ≤ 1600 →
    0x40 ≤ s.txPageStart ∧ s.txPageStart * 256 + s.txBytes ≤ memEnd) ∧
  (s.tcrLoopCntl = 1 → s.LoopFits s.txPageStart s.txBytes s.loopSource)

/-- What an operation needs of the registers that the guest has written: no word of the data port
from the last byte of an array on, BNRY inside the packet memory for the send-packet command, and
room from the pages of a frame on. -/
def Guarded : CardOp → Prop
  | .write address value ready => address.toNat % 16 = 0 →
    (validated value &&& 0x38 = 0x18 → 0x40 ≤ s.boundPtr ∧ s.boundPtr < 0xc0) ∧
      (value.getLsbD 2 = true → (s.setCr (validated value)).sendPacket.TransmitFits ready)
  | .dataRead => s.dcrWdsize = true → s.remoteDma ≠ 31 ∧ s.remoteDma + 1 ≠ memEnd
  | .dataWrite _ => s.dcrWdsize = true → s.remoteBytes ≠ 0 → s.remoteDma + 1 ≠ memEnd
  | .reset => True
  | .frame buf len => s.dcrLoop = true → s.tcrLoopCntl = 0 → s.accepts buf (min len 2000) = true →
    s.RecordFits (min len 2000)

/-- The registers fit their widths. -/
structure Sized : Prop where
  pageStart : s.pageStart < 256
  pageStop : s.pageStop < 256
  boundPtr : s.boundPtr < 256
  currPage : s.currPage < 256
  txPageStart : s.txPageStart < 256
  txBytes : s.txBytes < 65536

end Ne2000Card

/-! ## Single accesses -/

theorem inside_pageAccess {page length : Nat} {offset : Int} (some_ : 0 < length) :
    (pageAccess page offset length).Inside ↔
      0 ≤ page * 256 - memStart + offset ∧ page * 256 + offset + length ≤ memEnd := by
  show length = 0 ∨ (0 : Int) ≤ page * 256 - memStart + offset ∧
    (page * 256 - memStart + offset + length : Int) ≤ (0x8000 : Nat) ↔ _
  unfold memStart memEnd
  omega

theorem sizeT_of_nonneg {n : Int} (nonneg : 0 ≤ n) (small : n < 4294967296) :
    sizeT n = n.toNat := by
  rw [sizeT, Int.emod_eq_of_lt nonneg small]

/-- A negative size is taken for almost all of the address space. -/
theorem sizeT_of_neg {n : Int} (neg : n < 0) (small : -4294901760 ≤ n) : 65536 ≤ sizeT n := by
  unfold sizeT
  omega

theorem forall_frameRead {page length : Nat} {offset : Int} {p : CardAccess → Prop} :
    (∀ a ∈ frameRead (some page) offset length, p a) ↔ p (pageAccess page offset length) := by
  show (∀ a ∈ [_], p a) ↔ _
  rw [List.forall_mem_singleton]

theorem forall_frameRead_none {length : Nat} {offset : Int} {p : CardAccess → Prop} :
    ∀ a ∈ frameRead none offset length, p a := fun _ listed => absurd listed List.not_mem_nil

namespace Ne2000

variable {s : Ne2000} {n page : Nat} {buf : Nat → Byte}

/-- A frame that wraps reaches past PSTOP. -/
theorem past_of_wraps (wraps : s.Wraps n) (before : s.currPage < s.pageStop) :
    (s.pageStop - s.currPage) * 256 < max n 60 + 8 := by
  have pages := pagesOf_bounds n
  unfold Wraps nextpage at wraps
  dsimp only at wraps
  split at wraps <;> omega

/-- The sizes of a frame that wraps. -/
theorem sizes_of_wraps (wraps : s.Wraps n) (before : s.currPage < s.pageStop)
    (stop : s.pageStop < 256) (small : n < 65536) :
    sizeT (((s.pageStop - s.currPage : Int)) * 256 - 4) = (s.pageStop - s.currPage) * 256 - 4 ∧
      sizeT ((if n < 60 then 60 else n : Nat) - (s.pageStop - s.currPage : Int) * 256 + 8) =
        max n 60 + 8 - (s.pageStop - s.currPage) * 256 := by
  have past := past_of_wraps wraps before
  have padded : (if n < 60 then 60 else n) = max n 60 := by split <;> omega
  rw [padded]
  constructor
  · rw [sizeT_of_nonneg (by omega) (by omega)]
    omega
  · rw [sizeT_of_nonneg (by omega) (by omega)]
    omega

/-- What is stored of a frame, and read of it from the packet memory. -/
theorem storeAccesses_inside_iff (source : Option Nat) (stop : s.pageStop < 256)
    (curr : s.currPage < 256) (small : n < 65536) :
    (∀ a ∈ s.storeAccesses source n, a.Inside) ↔
      s.RecordFits n ∧ ∀ page ∈ source, s.SourceFits page n := by
  have padded : (if n < 60 then 60 else n) = max n 60 := by split <;> omega
  unfold storeAccesses RecordFits SourceFits
  dsimp only
  have none_ {p : Nat → Prop} : ∀ page ∈ (none : Option Nat), p page :=
    fun _ named => absurd named (Option.not_mem_none _)
  have one {page : Nat} {p : Nat → Prop} : (∀ other ∈ some page, p other) ↔ p page :=
    ⟨fun all => all page rfl, fun here _ same => Option.some.inj same ▸ here⟩
  by_cases wraps : s.Wraps n
  · simp only [if_pos wraps, List.forall_mem_append, List.forall_mem_cons]
    rcases Nat.lt_or_ge s.currPage s.pageStop with before | behind
    · have past := past_of_wraps wraps before
      obtain ⟨first, second⟩ := sizes_of_wraps wraps before stop small
      rw [first, second, inside_pageAccess (by decide), inside_pageAccess (by omega),
        inside_pageAccess (by omega)]
      unfold memStart memEnd
      cases source with
      | none =>
        simp only [iff_true_intro forall_frameRead_none, iff_true_intro none_,
          iff_true_intro (List.forall_mem_nil _), and_true]
        omega
      | some page =>
        rw [forall_frameRead, forall_frameRead, inside_pageAccess (by omega),
          inside_pageAccess (by omega)]
        simp only [iff_true_intro (List.forall_mem_nil _), and_true, one]
        unfold memStart memEnd
        omega
    · have large := sizeT_of_neg (n := (s.pageStop - s.currPage : Int) * 256 - 4) (by omega)
        (by omega)
      rw [@inside_pageAccess s.currPage _ 4 (by omega)]
      unfold memEnd
      constructor
      · rintro ⟨⟨⟨-, ⟨-, high⟩, -⟩, -⟩, -⟩
        omega
      · rintro ⟨⟨-, before, -⟩, -⟩
        omega
  · simp only [if_neg wraps, List.forall_mem_append, List.forall_mem_cons]
    rw [padded, inside_pageAccess (by decide), inside_pageAccess (by omega)]
    unfold memStart memEnd
    cases source with
    | none =>
      simp only [iff_true_intro forall_frameRead_none, iff_true_intro none_,
        iff_true_intro (List.forall_mem_nil _), and_true]
      omega
    | some page =>
      rw [forall_frameRead, inside_pageAccess (by omega)]
      simp only [iff_true_intro (List.forall_mem_nil _), and_true, one]
      unfold memStart memEnd
      omega

theorem accepts_eq : s.accepts buf n = (s.reaches n && !s.filtered buf) := rfl

theorem filtered_of_promisc (promisc : s.rcrPromisc = true) : s.filtered buf = false :=
  if_pos promisc

/-- All accesses of a received frame. -/
theorem rxAccesses_inside_iff (source : Option Nat) (stop : s.pageStop < 256)
    (curr : s.currPage < 256) (small : n < 65536) :
    (∀ a ∈ s.rxAccesses source buf n, a.Inside) ↔
      (s.reaches n = true → s.rcrPromisc = false → ∀ page ∈ source, 0x40 ≤ page ∧ page < 0xc0) ∧
        (s.accepts buf n = true → s.RecordFits n ∧ ∀ page ∈ source, s.SourceFits page n) := by
  have stores := storeAccesses_inside_iff source stop curr small
  have read (length : Nat) (some_ : 0 < length) :
      (∀ a ∈ frameRead source 0 length, a.Inside) ↔
        ∀ page ∈ source, 0x40 ≤ page ∧ page * 256 + length ≤ memEnd := by
    cases source with
    | none => exact iff_of_true forall_frameRead_none fun _ named =>
        absurd named (Option.not_mem_none _)
    | some page =>
      rw [forall_frameRead, inside_pageAccess some_]
      unfold memStart memEnd
      constructor
      · rintro inside _ ⟨⟩
        omega
      · intro all
        have := all page rfl
        omega
  unfold rxAccesses
  rw [accepts_eq]
  cases reaches : s.reaches n with
  | false =>
    rw [if_neg Bool.false_ne_true]
    refine iff_of_true (fun _ listed => absurd listed List.not_mem_nil) ⟨?_, ?_⟩
    · exact fun h => absurd h Bool.false_ne_true
    · exact fun h => absurd h Bool.false_ne_true
  | true =>
    rw [if_pos rfl, List.forall_mem_append]
    refine and_congr ?_ ?_
    · cases promisc : s.rcrPromisc with
      | false =>
        rw [if_neg Bool.false_ne_true, read 6 (by decide), imp_iff_right (Eq.refl true),
          imp_iff_right (Eq.refl false)]
        unfold memEnd
        refine forall_congr' fun page => forall_congr' fun _ => ?_
        omega
      | true =>
        rw [if_pos rfl]
        refine iff_of_true (fun _ listed => absurd listed List.not_mem_nil) ?_
        exact fun _ h => absurd h.symm Bool.false_ne_true
    · cases filtered : s.filtered buf with
      | false =>
        rw [if_neg Bool.false_ne_true, List.forall_mem_append, read 1 (by decide), stores,
          Bool.not_false, Bool.and_true, imp_iff_right (Eq.refl true)]
        refine and_iff_right_of_imp fun ⟨_, fits⟩ page named => ?_
        obtain ⟨low, high⟩ := fits page named
        have padded : 1 ≤ max n 60 := Nat.le_trans (by decide) (Nat.le_max_right n 60)
        refine ⟨low, Nat.le_trans ?_ high⟩
        exact Nat.le_trans (Nat.add_le_add_left padded _) (Nat.le_add_right ..)
      | true =>
        rw [if_pos rfl]
        refine iff_of_true (fun _ listed => absurd listed List.not_mem_nil) ?_
        exact fun h => absurd h Bool.false_ne_true

/-- The memory after a frame was stored. -/
def storedMem (s : Ne2000) (buf : Nat → Byte) (ioLen : Nat) : Nat → Byte :=
  let n := if ioLen < 60 then 60 else ioLen
  let next := s.nextpage (pagesOf ioLen)
  let mem := overlay s.mem (s.currPage * 256) (pkthdr ((buf 0).getLsbD 0) next n)
  if s.Wraps ioLen then
    let endbytes := (s.pageStop - s.currPage) * 256
    overlay (overlay mem (s.currPage * 256 + 4) (slice buf 0 (endbytes - 4)))
      (s.pageStart * 256) (slice buf (endbytes - 4) (n + 8 - endbytes))
  else overlay mem (s.currPage * 256 + 4) (slice buf 0 n)

/-- The state after a frame was stored, whatever the registers. -/
def stored (s : Ne2000) (buf : Nat → Byte) (n : Nat) : Ne2000 :=
  s.received buf (s.nextpage (pagesOf n) % 256).toNat (s.storedMem buf n)

theorem rxFrame_of_refused (refused : s.accepts buf n = false) : (s.rxFrame buf n).after = s := by
  unfold rxFrame
  split
  · rfl
  rename_i running
  dsimp only
  split
  · rfl
  rename_i room
  split
  · rfl
  rename_i long
  split
  · rfl
  rename_i passed
  simp only [Bool.or_eq_true, decide_eq_true_eq, not_or, Bool.not_eq_true, Bool.and_eq_true,
    Bool.not_eq_true', not_and, Bool.not_eq_false] at running room passed long
  have accepted : s.accepts buf n = true := by
    simp only [accepts, running.1, running.2, passed, Bool.and_eq_true, Bool.or_eq_true,
      decide_eq_true_eq, ne_eq, Bool.not_false, not_false_eq_true, true_and, and_true]
    exact ⟨by omega, (Nat.lt_or_ge n 40).symm.imp_right long⟩
  exact absurd (refused.symm.trans accepted) Bool.false_ne_true

theorem rxFrame_of_accepts (accepted : s.accepts buf n = true) :
    (s.rxFrame buf n).after = s.stored buf n := by
  simp only [accepts, Bool.and_eq_true, Bool.or_eq_true, Bool.not_eq_true', decide_eq_true_eq,
    ne_eq] at accepted
  obtain ⟨⟨⟨⟨running, configured⟩, room⟩, long⟩, passed⟩ := accepted
  have runs : (s.crStop || decide (s.pageStart = 0)) = false := by
    rw [running, decide_eq_false configured]
    rfl
  have noShortage : (decide (s.avail < pagesOf n) || decide (s.avail = pagesOf n)) = false := by
    rw [decide_eq_false (by omega), decide_eq_false (by omega)]
    rfl
  have noRunt : (decide (n < 40) && !s.rcrRuntsOk) = false := by
    rcases long with long | runts
    · rw [decide_eq_false (by omega)]
      rfl
    · rw [runts]
      exact Bool.and_false _
  unfold rxFrame stored storedMem
  simp only [runs, noShortage, noRunt, passed, Bool.false_eq_true, if_false]
  by_cases wraps : s.Wraps n
  · have splits : (s.currPage < s.nextpage (pagesOf n) ||
        decide (s.currPage + pagesOf n = s.pageStop)) = false := by
      rw [← Bool.not_eq_true, Bool.or_eq_true, decide_eq_true_eq, decide_eq_true_eq]
      exact wraps
    rw [splits, if_neg Bool.false_ne_true, if_pos wraps]
    rfl
  · have whole : (s.currPage < s.nextpage (pagesOf n) ||
        decide (s.currPage + pagesOf n = s.pageStop)) = true := by
      rw [Bool.or_eq_true, decide_eq_true_eq, decide_eq_true_eq]
      exact not_not.mp wraps
    rw [whole, if_pos rfl, if_neg wraps]
    rfl

end Ne2000

/-! ## Operations -/

namespace Ne2000Card

variable {s t : Ne2000Card} {op : CardOp}

theorem rdmaCmd_setCr (value : Byte) :
    (s.setCr value).rdmaCmd = 3 ↔ value &&& 0x38 = 0x18 := by
  show (value &&& 0x38) >>> 3 = 3 ↔ _
  revert value
  decide +kernel

theorem sendPacket_inside_iff (value : Byte) :
    (∀ a ∈ (s.setCr value).sendPacketAccesses, a.Inside) ↔
      (value &&& 0x38 = 0x18 → 0x40 ≤ s.boundPtr ∧ s.boundPtr < 0xc0) := by
  rw [← rdmaCmd_setCr (s := s), sendPacketAccesses]
  split
  · rename_i sends
    rw [List.forall_mem_singleton, inside_pageAccess (by decide), imp_iff_right sends]
    show 0 ≤ (s.boundPtr * 256 - memStart + 2 : Int) ∧ (s.boundPtr * 256 + 2 + 2 : Int) ≤ memEnd ↔ _
    unfold memStart memEnd
    omega
  · rename_i other
    exact iff_of_true (fun _ listed => absurd listed List.not_mem_nil) fun sends => absurd sends
      other

theorem transmit_inside_iff (sized : s.Sized) (ready : Bool) :
    (∀ a ∈ s.transmitAccesses ready, a.Inside) ↔ s.TransmitFits ready := by
  unfold transmitAccesses TransmitFits
  rcases eq_or_ne s.tcrLoopCntl 0 with normal | loops
  · have unlooped : s.tcrLoopCntl ≠ 1 := by
      rw [normal]
      decide
    rw [if_pos normal, imp_iff_right normal]
    split
    · rename_i taken
      obtain ⟨isReady, long, short⟩ := taken
      rw [List.forall_mem_singleton, inside_pageAccess (by omega), imp_iff_right isReady,
        imp_iff_right long, imp_iff_right short]
      unfold memStart memEnd
      have apart : (s.tcrLoopCntl = 1 → s.LoopFits s.txPageStart s.txBytes s.loopSource) :=
        fun looped => absurd looped unlooped
      rw [and_iff_left apart]
      omega
    · rename_i untaken
      refine iff_of_true (fun _ listed => absurd listed List.not_mem_nil) ⟨?_, ?_⟩
      · exact fun isReady long short => absurd ⟨isReady, long, short⟩ untaken
      · exact fun looped => absurd looped unlooped
  · rw [if_neg loops, and_iff_right fun normal => absurd normal loops]
    split
    · rename_i looped
      rw [imp_iff_right looped, Ne2000.rxAccesses_inside_iff _ sized.pageStop sized.currPage
        sized.txBytes]
      have one {p : Nat → Prop} : (∀ other ∈ some s.txPageStart, p other) ↔ p s.txPageStart :=
        ⟨fun all => all _ rfl, fun here _ same => Option.some.inj same ▸ here⟩
      rw [one, one]
      rfl
    · rename_i unlooped
      exact iff_of_true (fun _ listed => absurd listed List.not_mem_nil) fun looped =>
        absurd looped unlooped

/-! ## The registers of a run -/

/-- An operation that keeps the pages and the transmit count. -/
theorem Sized.keep (sized : s.Sized)
    (same : (t.pageStart, t.pageStop, t.boundPtr, t.currPage, t.txPageStart, t.txBytes) =
      (s.pageStart, s.pageStop, s.boundPtr, s.currPage, s.txPageStart, s.txBytes)) : t.Sized := by
  simp only [Prod.mk.injEq] at same
  obtain ⟨pageStart, pageStop, boundPtr, currPage, txPageStart, txBytes⟩ := same
  obtain ⟨one, two, three, four, five, six⟩ := sized
  constructor <;> omega

theorem sized_rxFrame (sized : s.Sized) (buf : Nat → Byte) (n : Nat) :
    Sized { s with toNe2000 := (s.rxFrame buf n).after } := by
  cases accepted : s.accepts buf n with
  | false =>
    rw [Ne2000.rxFrame_of_refused accepted]
    exact sized
  | true =>
    rw [Ne2000.rxFrame_of_accepts accepted]
    refine ⟨sized.pageStart, sized.pageStop, sized.boundPtr, ?_, sized.txPageStart, sized.txBytes⟩
    show (s.nextpage (Ne2000.pagesOf n) % 256).toNat < 256
    omega

theorem sized_writePage0 (sized : s.Sized) (address : Nat) (value : Byte) :
    (s.writePage0 address value).Sized := by
  have small := value.isLt
  have bytes := sized.txBytes
  unfold writePage0
  split
  · exact { sized with pageStart := small }
  · exact { sized with pageStop := small }
  · exact { sized with boundPtr := small }
  · exact { sized with txPageStart := small }
  · refine { sized with txBytes := ?_ }
    show s.txBytes / 256 * 256 + value.toNat < 65536
    omega
  · refine { sized with txBytes := ?_ }
    show value.toNat * 256 + s.txBytes % 256 < 65536
    omega
  · exact sized.keep rfl
  · exact sized.keep rfl
  · exact sized.keep rfl
  · exact sized.keep rfl
  · exact sized.keep rfl
  · exact sized.keep rfl
  · refine sized.keep ?_
    unfold writeTcr
    dsimp only
    split <;> rfl
  · exact sized.keep rfl
  · exact sized.keep rfl
  · exact sized

theorem sized_sendPacket (sized : s.Sized) (value : Byte) : (s.setCr value).sendPacket.Sized := by
  refine sized.keep ?_
  unfold sendPacket
  split <;> rfl

theorem sized_transmit (sized : s.Sized) : s.transmit.Sized := by
  unfold transmit
  split
  · exact sized.keep rfl
  split
  · exact (sized_rxFrame sized _ _).keep rfl
  · exact sized

theorem sized_probe (sized : s.Sized) : s.probe.Sized := by
  unfold probe
  split
  · exact sized.keep rfl
  · exact sized

theorem sized_writeCr (sized : s.Sized) (value : Byte) : (s.writeCr value).Sized := by
  have sent := sized_sendPacket sized (validated value)
  unfold writeCr
  dsimp only
  apply sized_probe
  split
  · exact sized_transmit sent
  · exact sent

theorem sized_step (sized : s.Sized) (next : s.step op = some t) : t.Sized := by
  cases op with
  | write address value ready =>
    cases next
    unfold write
    dsimp only
    split
    · exact sized_writeCr sized value
    split
    · exact sized_writePage0 sized _ value
    split
    · unfold writePage1
      split
      · exact sized.keep rfl
      split
      · exact { sized with currPage := value.isLt }
      · exact sized.keep rfl
    split
    · unfold writePage2
      split <;> exact sized.keep rfl
    · unfold writePage3
      split
      · split <;> exact sized.keep rfl
      · exact sized
  | dataRead =>
    cases next
    refine sized.keep ?_
    unfold Ne2000.asicReadW
    split <;> rfl
  | dataWrite value =>
    cases next
    have written (bytes : List Byte) :
        Sized { s with toNe2000 := s.chipmemWrite s.remoteDma bytes } := by
      refine sized.keep ?_
      unfold Ne2000.chipmemWrite
      split <;> rfl
    have moved (ioLen : Nat) (bytes : List Byte) :
        Sized { s with toNe2000 := (s.chipmemWrite s.remoteDma bytes).dmaWrite ioLen } :=
      { written bytes with }
    unfold Ne2000.asicWriteW
    split
    · exact sized
    split
    · exact moved 2 _
    · exact moved 1 _
  | reset =>
    cases next
    constructor <;> exact Nat.zero_lt_succ _
  | frame buf len =>
    cases next
    unfold poll
    split
    · exact sized
    · exact sized_rxFrame sized _ _

theorem sized_powerOn (rtl8029as : Bool) (physaddr : List Byte) :
    (powerOn rtl8029as physaddr).Sized := by
  constructor <;> exact Nat.zero_lt_succ _

theorem inside_of_pos {array : CardArray} {offset : Int} {length : Nat} (some_ : 0 < length) :
    CardAccess.Inside ⟨array, offset, length⟩ ↔ 0 ≤ offset ∧ offset + length ≤ array.size :=
  or_iff_right (Nat.ne_of_gt some_)

/-- A byte of the data port is inside its array, and a word unless it begins at the last byte. -/
theorem chipmemReads_inside_iff (word : Bool) (address : Nat) :
    (∀ a ∈ Ne2000.chipmemReads (if word then 2 else 1) address, a.Inside) ↔
      (word = true → address ≠ 31 ∧ address + 1 ≠ memEnd) := by
  have some_ : 0 < if word then 2 else 1 := by cases word <;> decide
  have length : (if word then 2 else 1) = 1 + word.toNat := by cases word <;> rfl
  have wide : word = true ↔ word.toNat = 1 := by cases word <;> decide
  have narrow := Bool.toNat_le word
  unfold Ne2000.chipmemReads
  split
  · have size : CardArray.rom.size = 32 := rfl
    rw [List.forall_mem_singleton, inside_of_pos some_, length, wide, size]
    unfold memEnd
    omega
  split
  · have size : CardArray.packet.size = 0x8000 := rfl
    rw [List.forall_mem_singleton, inside_of_pos some_, length, wide, size]
    unfold memStart memEnd at *
    omega
  · refine iff_of_true (fun _ listed => absurd listed List.not_mem_nil) fun _ => ?_
    unfold memStart memEnd at *
    omega

theorem chipmemWrites_inside_iff (word : Bool) (address : Nat) :
    (∀ a ∈ Ne2000.chipmemWrites (if word then 2 else 1) address, a.Inside) ↔
      (word = true → address + 1 ≠ memEnd) := by
  have reads := chipmemReads_inside_iff word address
  unfold Ne2000.chipmemReads at reads
  unfold Ne2000.chipmemWrites
  rcases Nat.lt_or_ge 31 address with above | low
  · rw [if_neg (Nat.not_le.mpr above)] at reads
    rw [reads]
    exact forall_congr' fun _ => and_iff_right (Nat.ne_of_gt above)
  · have outside : ¬(memStart ≤ address ∧ address < memEnd) := by
      unfold memStart
      omega
    rw [if_neg outside]
    refine iff_of_true (fun _ listed => absurd listed List.not_mem_nil) fun _ => ?_
    unfold memEnd
    omega

/-- The accesses of an operation stay inside exactly when the registers that it goes by do. -/
theorem accesses_inside_iff (sized : s.Sized) (op : CardOp) :
    (∀ a ∈ s.accesses op, a.Inside) ↔ s.Guarded op := by
  cases op with
  | write address value ready =>
    unfold accesses Guarded
    dsimp only
    split
    · rename_i command
      rw [imp_iff_right command, writeCrAccesses]
      rw [List.forall_mem_append, sendPacket_inside_iff]
      refine and_congr_right fun _ => ?_
      split
      · rename_i transmits
        rw [imp_iff_right transmits]
        exact transmit_inside_iff (sized_sendPacket sized _) ready
      · rename_i quiet
        exact iff_of_true (fun _ listed => absurd listed List.not_mem_nil)
          fun transmits => absurd transmits quiet
    · rename_i other
      exact iff_of_true (fun _ listed => absurd listed List.not_mem_nil)
        fun command => absurd command other
  | dataRead => exact chipmemReads_inside_iff s.dcrWdsize s.remoteDma
  | dataWrite value =>
    unfold accesses Guarded
    dsimp only
    unfold Ne2000.asicWriteAccesses
    split
    · rename_i ended
      exact iff_of_true (fun _ listed => absurd listed List.not_mem_nil)
        fun _ more => absurd ended more
    · rename_i more
      rw [chipmemWrites_inside_iff, imp_iff_right more]
  | reset =>
    refine iff_of_true ?_ trivial
    show ∀ a ∈ ([⟨.rom, 0, 32⟩, ⟨.packet, 0, 0x8000⟩] : List CardAccess), a.Inside
    decide
  | frame buf len =>
    have small : min len 2000 < 65536 := Nat.lt_of_le_of_lt (Nat.min_le_right ..) (by decide)
    have stores := @Ne2000.rxAccesses_inside_iff s.toNe2000 _ buf none sized.pageStop sized.currPage
      small
    have none_ {p : Nat → Prop} : ∀ page ∈ (none : Option Nat), p page :=
      fun _ named => absurd named (Option.not_mem_none _)
    unfold accesses Guarded
    dsimp only
    unfold pollAccesses
    cases loop : s.dcrLoop with
    | false =>
      exact iff_of_true (fun _ listed => absurd listed List.not_mem_nil)
        fun h => absurd h Bool.false_ne_true
    | true =>
      rw [imp_iff_right (Eq.refl true)]
      rcases eq_or_ne s.tcrLoopCntl 0 with normal | loops
      · have accepted : (!true || decide (s.tcrLoopCntl ≠ 0)) = false := by
          rw [decide_eq_false (not_not.mpr normal)]
          rfl
        rw [accepted, if_neg Bool.false_ne_true, stores, imp_iff_right normal]
        refine (and_iff_right fun _ _ => none_).trans (forall_congr' fun _ => and_iff_left none_)
      · have dropped : (!true || decide (s.tcrLoopCntl ≠ 0)) = true := decide_eq_true loops
        rw [dropped, if_pos rfl]
        exact iff_of_true (fun _ listed => absurd listed List.not_mem_nil)
          fun normal => absurd normal loops

end Ne2000Card

/-! ## Bytes that no access covers -/

/-- The access covers the byte at an address of the card. -/
def CardAccess.Covers (a : CardAccess) (address : Nat) : Prop :=
  a.array = .packet ∧ a.offset ≤ address - memStart ∧ address - memStart < a.offset + a.length

theorem not_covers_pageAccess {page length address : Nat} {offset : Int}
    (uncovered : ¬(pageAccess page offset length).Covers address) :
    address < page * 256 + offset ∨ page * 256 + offset + length ≤ address := by
  by_contra within
  refine uncovered ⟨rfl, ?_, ?_⟩
  · show (page * 256 - memStart + offset : Int) ≤ address - memStart
    omega
  · show (address - memStart : Int) < page * 256 - memStart + offset + length
    omega

namespace Ne2000

variable {s : Ne2000} {n address : Nat} {buf : Nat → Byte}

/-- A stored frame changes only what it covers. -/
theorem storedMem_of_uncovered (stop : s.pageStop < 256) (curr : s.currPage < 256)
    (small : n < 65536) {source : Option Nat}
    (uncovered : ∀ a ∈ s.storeAccesses source n, ¬a.Covers address) :
    s.storedMem buf n address = s.mem address := by
  have padded : (if n < 60 then 60 else n) = max n 60 := by split <;> omega
  have header (multicast : Bool) (next : Int) : (pkthdr multicast next (max n 60)).length = 4 :=
    length_pkthdr ..
  unfold storeAccesses at uncovered
  unfold storedMem
  dsimp only at uncovered ⊢
  rw [padded] at uncovered ⊢
  by_cases wraps : s.Wraps n
  · simp only [if_pos wraps, List.forall_mem_append, List.forall_mem_cons] at uncovered ⊢
    obtain ⟨⟨⟨first, second, third, -⟩, -⟩, -⟩ := uncovered
    have first := not_covers_pageAccess first
    have second := not_covers_pageAccess second
    have third := not_covers_pageAccess third
    have last : max n 60 + 8 - (s.pageStop - s.currPage) * 256 ≤
        sizeT ((max n 60 : Nat) - (s.pageStop - s.currPage : Int) * 256 + 8) := by
      rcases Nat.lt_or_ge s.currPage s.pageStop with before | behind
      · exact Nat.le_of_eq (by rw [← padded, (sizes_of_wraps wraps before stop small).2, padded])
      · rw [sizeT_of_nonneg (by omega) (by omega)]
        omega
    have most : (s.pageStop - s.currPage) * 256 - 4 ≤
        sizeT ((s.pageStop - s.currPage : Int) * 256 - 4) := by
      rcases Nat.lt_or_ge s.currPage s.pageStop with before | behind
      · exact Nat.le_of_eq (sizes_of_wraps wraps before stop small).1.symm
      · omega
    rw [overlay_of_outside, overlay_of_outside, overlay_of_outside]
    · rw [header]
      omega
    · rw [length_slice]
      omega
    · rw [length_slice]
      omega
  · simp only [if_neg wraps, List.forall_mem_append, List.forall_mem_cons] at uncovered ⊢
    obtain ⟨⟨first, second, -⟩, -⟩ := uncovered
    have first := not_covers_pageAccess first
    have second := not_covers_pageAccess second
    rw [overlay_of_outside, overlay_of_outside]
    · rw [header]
      omega
    · rw [length_slice]
      omega

theorem rxFrame_of_uncovered (stop : s.pageStop < 256) (curr : s.currPage < 256)
    (small : n < 65536) {source : Option Nat}
    (uncovered : ∀ a ∈ s.rxAccesses source buf n, ¬a.Covers address) :
    (s.rxFrame buf n).after.mem address = s.mem address := by
  cases accepted : s.accepts buf n with
  | false => rw [rxFrame_of_refused accepted]
  | true =>
    rw [rxFrame_of_accepts accepted]
    obtain ⟨reaches, passed⟩ := Bool.and_eq_true_iff.mp (accepts_eq ▸ accepted)
    rw [Bool.not_eq_true'] at passed
    unfold rxAccesses at uncovered
    rw [if_pos reaches, passed, if_neg Bool.false_ne_true, List.forall_mem_append,
      List.forall_mem_append] at uncovered
    exact storedMem_of_uncovered stop curr small uncovered.2.2

theorem mem_dmaWrite (ioLen : Nat) : (s.dmaWrite ioLen).mem = s.mem := rfl

theorem chipmemWrite_of_uncovered {base : Nat} {bytes : List Byte}
    (uncovered : ∀ a ∈ chipmemWrites bytes.length base, ¬a.Covers address) :
    (s.chipmemWrite base bytes).mem address = s.mem address := by
  unfold chipmemWrites at uncovered
  unfold chipmemWrite
  split
  · rename_i inside
    rw [if_pos inside, List.forall_mem_singleton] at uncovered
    show overlay s.mem base bytes address = _
    refine overlay_of_outside ?_
    by_contra within
    refine uncovered ⟨rfl, ?_, ?_⟩
    · show (base - memStart : Int) ≤ address - memStart
      omega
    · show (address - memStart : Int) < base - memStart + bytes.length
      omega
  · rfl

end Ne2000

namespace Ne2000Card

variable {s t : Ne2000Card} {op : CardOp}

theorem mem_writeCr {value : Byte} {ready : Bool} {address : Nat} (sized : s.Sized)
    (uncovered : ∀ a ∈ s.writeCrAccesses value ready, ¬a.Covers address) :
    (s.writeCr value).mem address = s.mem address := by
  have sent : (s.setCr (validated value)).sendPacket.mem = s.mem := by
    unfold sendPacket
    split <;> rfl
  have probed (u : Ne2000Card) : u.probe.mem = u.mem := by
    unfold probe
    split <;> rfl
  have bounded := sized_sendPacket sized (validated value)
  unfold writeCrAccesses at uncovered
  unfold writeCr
  dsimp only at uncovered ⊢
  rw [probed, ← sent]
  split
  · rename_i transmits
    rw [if_pos transmits, List.forall_mem_append] at uncovered
    replace uncovered := uncovered.2
    generalize (s.setCr (validated value)).sendPacket = u at *
    unfold transmit
    split
    · rfl
    split
    · rename_i loops looped
      unfold transmitAccesses at uncovered
      rw [if_neg loops, if_pos looped] at uncovered
      exact Ne2000.rxFrame_of_uncovered bounded.pageStop bounded.currPage bounded.txBytes uncovered
    · rfl
  · rfl

/-- The packet memory changes only where an access of the operation covers it. -/
theorem mem_of_uncovered (sized : s.Sized) (next : s.step op = some t) {address : Nat}
    (inside : memStart ≤ address ∧ address < memEnd)
    (uncovered : ∀ a ∈ s.accesses op, ¬a.Covers address) : t.mem address = s.mem address := by
  cases op with
  | write register value ready =>
    cases next
    unfold write
    unfold accesses at uncovered
    dsimp only at uncovered ⊢
    split
    · rename_i command
      rw [if_pos command] at uncovered
      exact mem_writeCr sized uncovered
    split
    · unfold writePage0
      split
      all_goals first | rfl | skip
      unfold writeTcr
      dsimp only
      split <;> rfl
    split
    · unfold writePage1
      split
      · rfl
      · split <;> rfl
    split
    · unfold writePage2
      split <;> rfl
    · unfold writePage3
      split
      · split <;> rfl
      · rfl
  | dataRead =>
    cases next
    show (s.asicReadW.2).mem address = _
    unfold Ne2000.asicReadW
    split <;> rfl
  | dataWrite value =>
    cases next
    show (s.asicWriteW value).mem address = _
    replace uncovered : ∀ a ∈ s.asicWriteAccesses, ¬a.Covers address := uncovered
    unfold Ne2000.asicWriteAccesses at uncovered
    unfold Ne2000.asicWriteW
    split
    · rfl
    rename_i more
    rw [if_neg more] at uncovered
    split
    · rename_i word
      rw [if_pos word] at uncovered
      rw [Ne2000.mem_dmaWrite]
      exact Ne2000.chipmemWrite_of_uncovered uncovered
    · rename_i byte
      rw [if_neg byte] at uncovered
      rw [Ne2000.mem_dmaWrite]
      exact Ne2000.chipmemWrite_of_uncovered uncovered
  | reset =>
    refine absurd ?_ (uncovered ⟨.packet, 0, 0x8000⟩ (.tail _ (.head _)))
    unfold memStart memEnd at inside
    refine ⟨rfl, ?_, ?_⟩
    · show (0 : Int) ≤ address - (0x4000 : Nat)
      omega
    · show (address - (0x4000 : Nat) : Int) < 0 + (0x8000 : Nat)
      omega
  | frame buf len =>
    cases next
    have small : min len 2000 < 65536 := Nat.lt_of_le_of_lt (Nat.min_le_right ..) (by decide)
    replace uncovered : ∀ a ∈ s.pollAccesses buf len, ¬a.Covers address := uncovered
    unfold pollAccesses at uncovered
    unfold poll
    split
    · rfl
    · rename_i polled
      rw [if_neg polled] at uncovered
      exact Ne2000.rxFrame_of_uncovered sized.pageStop sized.currPage small uncovered

/-! ## Every run -/

/-- On a ring in the packet memory, with CURR and BNRY inside it, every frame fits. -/
theorem guarded_frame_of_ring (ring : s.Ring) (buf : Nat → Byte) (len : Nat) :
    s.Guarded (.frame buf len) := by
  intro _ _ accepted
  have size := Ne2000.pagesOf_bounds (min len 2000)
  have room := Ne2000.accepts_room accepted
  have ends := Ne2000.room_of_avail ring room
  obtain ⟨low, high, bnry, curr⟩ := ring
  unfold Ne2000.RecordFits
  refine ⟨Nat.le_trans low curr.1, ?_⟩
  split
  · refine ⟨curr.2, high, low, ?_⟩
    unfold memEnd
    split at ends <;> omega
  · rename_i whole
    replace whole := not_not.mp whole
    unfold Ne2000.nextpage at whole
    dsimp only at whole
    unfold memEnd
    split at whole <;> split at ends <;> omega

/-- In every state that guarded operations reach from power-on, an operation stays inside the packet
memory and the address ROM exactly when it is guarded. -/
theorem accesses_inside_iff_of_run {rtl8029as : Bool} {physaddr : List Byte}
    (run : RunOk step Guarded (powerOn rtl8029as physaddr) s) (op : CardOp) :
    (∀ a ∈ s.accesses op, a.Inside) ↔ s.Guarded op := by
  refine accesses_inside_iff ?_ op
  exact run.invariant (sized_powerOn rtl8029as physaddr) fun sized _ next => sized_step sized next

/-- A word of the data port at address 0, in a card set to words. -/
theorem accesses_inside_firstWord :
    (((powerOn false []).write 0x0e 0x01).accesses .dataRead ≠ []) ∧
      ∀ a ∈ ((powerOn false []).write 0x0e 0x01).accesses .dataRead, a.Inside := by
  have guarded : (powerOn false []).Guarded (.write 0x0e 0x01 false) :=
    fun command => absurd command (by decide)
  refine ⟨by decide, ?_⟩
  exact (accesses_inside_iff_of_run (.tail .refl guarded rfl) .dataRead).mpr
    fun _ => ⟨by decide, by decide⟩

/-- A word of the data port at the last byte of the address ROM. -/
theorem not_accesses_inside_romEnd : ¬∀ rtl8029as physaddr s,
    RunOk step (fun _ _ => True) (powerOn rtl8029as physaddr) s →
      ∀ op, ∀ a ∈ s.accesses op, a.Inside := by
  intro inside
  have outside := inside false [] (((powerOn false []).write 0x0e 0x01).write 0x08 0x1f)
    (.tail (a := .write 0x08 0x1f false) (.tail (a := .write 0x0e 0x01 false) .refl trivial rfl)
      trivial rfl) .dataRead ⟨.rom, 31, 2⟩ (by decide)
  revert outside
  decide

end Ne2000Card

end PCemWeb.Network
