import PCemWeb.Network.Ne2000

/-!
# Received frames

On a ring with CURR and BNRY inside it, a frame is dropped without a trace or stored so that remote
DMA from its page reads back its header and its bytes, no page that the guest has not released is
written, and CURR stays in the ring. A frame that is stored across PSTOP is read four bytes past its
end, whichever bytes follow it in the host's memory (`rxExact_iff_of_run`).
-/

namespace PCemWeb.Network

open PCemWeb.Lib

namespace Ne2000

/-- The ring lies in the packet memory, and CURR and BNRY inside it. -/
structure Ring (s : Ne2000) : Prop where
  low : 0x40 ≤ s.pageStart
  high : s.pageStop ≤ 0xc0
  bnry : s.pageStart ≤ s.boundPtr ∧ s.boundPtr < s.pageStop
  curr : s.pageStart ≤ s.currPage ∧ s.currPage < s.pageStop

/-- The address of the byte `i` after the start of a page, around the ring. -/
def ringAt (s : Ne2000) (page i : Nat) : Nat :=
  if page * 256 + i < s.pageStop * 256 then page * 256 + i
  else page * 256 + i - (s.pageStop - s.pageStart) * 256

/-- The pages from BNRY up to CURR, which the guest has not released. -/
def Unread (s : Ne2000) (page : Nat) : Prop :=
  if s.boundPtr ≤ s.currPage then s.boundPtr ≤ page ∧ page < s.currPage
  else s.boundPtr ≤ page ∨ page < s.currPage

/-- How many reads of the data port yield `length` bytes. -/
def portReads (s : Ne2000) (length : Nat) : Nat := if s.dcrWdsize then (length + 1) / 2 else length

/-- The frame of the first `n` bytes of `buf` is in the ring of `t` from `s.currPage` on. -/
structure Stored (s : Ne2000) (buf : Nat → Byte) (n : Nat) (t : Ne2000) : Prop where
  record : ((asicReads (t.portReads (n + 4)) (t.setRemote s.currPage (n + 4))).1).take (n + 4) =
    pkthdr ((buf 0).getLsbD 0) t.currPage n ++ slice buf 0 n
  kept : ∀ a, a / 256 < s.pageStart ∨ s.pageStop ≤ a / 256 ∨ s.Unread (a / 256) → t.mem a = s.mem a

/-- What a receive owes the guest: the frame is dropped or stored, CURR stays inside the ring, and
no byte past the frame is read. -/
structure RxExact (s : Ne2000) (buf : Nat → Byte) (n : Nat) (r : Received) : Prop where
  outcome : r.after = s ∨ Stored s buf n r.after
  ring : Ring r.after
  within : r.readTo ≤ n

/-- The frame is stored. -/
def accepts (s : Ne2000) (buf : Nat → Byte) (n : Nat) : Bool :=
  !s.crStop && s.pageStart ≠ 0 && (pagesOf n : Int) < s.avail && (40 ≤ n || s.rcrRuntsOk) &&
    !s.filtered buf

variable {s t : Ne2000} {buf : Nat → Byte} {n page i : Nat}

/-! ## Reading the ring -/

theorem ringAt_bounds (inRing : s.pageStart ≤ page ∧ page < s.pageStop)
    (inside : i < (s.pageStop - s.pageStart) * 256) :
    s.pageStart * 256 ≤ s.ringAt page i ∧ s.ringAt page i < s.pageStop * 256 := by
  unfold ringAt
  split <;> omega

/-- A step along a ring of `total` addresses from `first` up to `last`. -/
theorem wrap_add {base i w first last total : Nat} (whole : first + total = last)
    (inRing : first ≤ base ∧ base < last) (inside : i + w ≤ total)
    (size : w = 1 ∨ w = 2 ∧ (base + i) % 2 = 0 ∧ last % 2 = 0) :
    (if (if base + i < last then base + i else base + i - total) + w = last then first
      else (if base + i < last then base + i else base + i - total) + w) =
      if base + (i + w) < last then base + (i + w) else base + (i + w) - total := by
  by_cases before : base + i < last
  · rw [if_pos before]
    by_cases ends : base + i + w = last
    · rw [if_pos ends, if_neg (by omega)]
      omega
    · rw [if_neg ends, if_pos (by omega), Nat.add_assoc]
  · rw [if_neg before, if_neg (by omega), if_neg (by omega)]
    omega

/-- The address after a step along the ring, as remote DMA computes it. -/
theorem ringAt_add (inRing : s.pageStart ≤ page ∧ page < s.pageStop) {w : Nat}
    (size : w = 1 ∨ w = 2 ∧ i % 2 = 0) (inside : i + w ≤ (s.pageStop - s.pageStart) * 256) :
    (if s.ringAt page i + w = s.pageStop * 256 then s.pageStart * 256 else s.ringAt page i + w) =
      s.ringAt page (i + w) :=
  wrap_add (by omega) (by omega) inside (size.imp_right fun both => by omega)

/-- The registers and the memory that a remote DMA leaves as they are. -/
structure SameRing (s t : Ne2000) : Prop where
  mem : t.mem = s.mem
  pageStart : t.pageStart = s.pageStart
  pageStop : t.pageStop = s.pageStop
  dcrWdsize : t.dcrWdsize = s.dcrWdsize

theorem sameRing_dmaRead (w : Nat) : SameRing s (s.dmaRead w) := ⟨rfl, rfl, rfl, rfl⟩

theorem SameRing.ringAt (same : SameRing s t) (page i : Nat) :
    t.ringAt page i = s.ringAt page i := by
  rw [Ne2000.ringAt, Ne2000.ringAt, same.pageStart, same.pageStop]

theorem dmaRead_remoteDma (high : s.pageStop ≤ 0xc0)
    (inRing : s.pageStart ≤ page ∧ page < s.pageStop) {w : Nat}
    (size : w = 1 ∨ w = 2 ∧ i % 2 = 0) (inside : i + w ≤ (s.pageStop - s.pageStart) * 256)
    (here : s.remoteDma = s.ringAt page i) :
    (s.dmaRead w).remoteDma = s.ringAt page (i + w) := by
  have bounds := ringAt_bounds inRing (show i < (s.pageStop - s.pageStart) * 256 by omega)
  change (if (s.remoteDma + w) % 0x10000 = s.pageStop * 256 then s.pageStart * 256 % 0x10000
    else (s.remoteDma + w) % 0x10000) = s.ringAt page (i + w)
  rw [← ringAt_add inRing size inside, here, Nat.mod_eq_of_lt (by omega),
    Nat.mod_eq_of_lt (by omega)]

/-- Reads of the data port take the bytes of the ring one after the other. -/
theorem asicReads_ring {k : Nat} (low : 0x40 ≤ s.pageStart) (high : s.pageStop ≤ 0xc0)
    (inRing : s.pageStart ≤ page ∧ page < s.pageStop) (even : s.dcrWdsize = true → i % 2 = 0)
    (inside : i + (if s.dcrWdsize then 2 else 1) * k ≤ (s.pageStop - s.pageStart) * 256)
    (here : s.remoteDma = s.ringAt page i) :
    (asicReads k s).1 = (List.range ((if s.dcrWdsize then 2 else 1) * k)).map
      fun j => s.mem (s.ringAt page (i + j)) := by
  induction k generalizing s i with
  | zero => rfl
  | succ k ih =>
    have next {w : Nat} (size : w = 1 ∨ w = 2 ∧ i % 2 = 0)
        (width : (if s.dcrWdsize then 2 else 1) = w) :
        (asicReads k (s.dmaRead w)).1 = (List.range (w * k)).map
          fun j => s.mem (s.ringAt page (i + (w + j))) := by
      rw [width, Nat.mul_succ] at inside
      have same := sameRing_dmaRead (s := s) w
      have dma := dmaRead_remoteDma high inRing size (by omega) here
      rw [← same.ringAt] at dma
      have rest := ih (s := s.dmaRead w) low high inRing
        (fun wide => by
          rw [same.dcrWdsize] at wide
          have := even wide
          rw [if_pos wide] at width
          omega)
        (by rw [same.dcrWdsize, width, same.pageStart, same.pageStop]; omega) dma
      rw [same.dcrWdsize, width] at rest
      rw [rest]
      refine List.map_congr_left fun j _ => ?_
      rw [same.mem, same.ringAt, Nat.add_assoc]
    have positive : 0 < if s.dcrWdsize then 2 else 1 := by split <;> decide
    have at' := ringAt_bounds inRing (show i < (s.pageStop - s.pageStart) * 256 by
      rw [Nat.mul_succ] at inside
      omega)
    have onCard : ¬ s.remoteDma ≤ 31 ∧ memStart ≤ s.remoteDma ∧ s.remoteDma < memEnd := by
      rw [here, memStart, memEnd]
      omega
    unfold asicReads asicReadW
    cases wide : s.dcrWdsize with
    | true =>
      have isEven := even wide
      have second : s.remoteDma + 1 = s.ringAt page (i + 1) := by
        rw [here, ← ringAt_add inRing (.inl rfl) (by
          rw [wide, if_pos rfl, Nat.mul_succ] at inside
          omega)]
        rw [if_neg]
        unfold ringAt
        split <;> omega
      have rest := next (.inr ⟨rfl, isEven⟩) (if_pos wide)
      have total : 2 * (k + 1) = 2 + 2 * k := by omega
      simp only [chipmemReadW, if_neg onCard.1, if_pos onCard.2, if_true, rest, total,
        List.range_add, List.map_append, List.map_map]
      rw [second, here]
      rfl
    | false =>
      have rest := next (.inl rfl) (by rw [wide]; rfl)
      have total : 1 * (k + 1) = 1 + 1 * k := by omega
      simp only [chipmemReadB, if_neg onCard.1, if_pos onCard.2, Bool.false_eq_true, if_false, rest,
        total, List.range_add, List.map_append, List.map_map]
      rw [here]
      rfl

theorem sameRing_setRemote (page length : Nat) : SameRing s (s.setRemote page length) :=
  ⟨rfl, rfl, rfl, rfl⟩

theorem setRemote_remoteDma (length : Nat) (small : page < 256) :
    (s.setRemote page length).remoteDma = page * 256 := by
  change (BitVec.ofNat 8 page).toNat * 256 + (s.remoteStart / 256 * 256 + 0) % 256 = page * 256
  rw [BitVec.toNat_ofNat]
  omega

/-- The guest reads the ring from the start of a page. -/
theorem take_asicReads {length : Nat} (low : 0x40 ≤ s.pageStart) (high : s.pageStop ≤ 0xc0)
    (inRing : s.pageStart ≤ page ∧ page < s.pageStop)
    (inside : length < (s.pageStop - s.pageStart) * 256) :
    ((asicReads (s.portReads length) (s.setRemote page length)).1).take length =
      (List.range length).map fun j => s.mem (s.ringAt page j) := by
  have same := sameRing_setRemote (s := s) page length
  have dma : (s.setRemote page length).remoteDma = (s.setRemote page length).ringAt page 0 := by
    rw [setRemote_remoteDma length (by omega), same.ringAt, ringAt, Nat.add_zero, if_pos (by omega)]
  have enough : length ≤ (if s.dcrWdsize then 2 else 1) * s.portReads length ∧
      (if s.dcrWdsize then 2 else 1) * s.portReads length ≤ length + 1 := by
    unfold portReads
    split <;> omega
  have bytes := asicReads_ring (s := s.setRemote page length) (k := s.portReads length) low high
    inRing (fun _ => rfl) (by rw [same.dcrWdsize, same.pageStart, same.pageStop]; omega) dma
  rw [bytes, same.dcrWdsize, ← List.map_take, List.take_range, Nat.min_eq_left enough.1]
  refine List.map_congr_left fun j _ => ?_
  rw [same.mem, same.ringAt, Nat.zero_add]

/-! ## Storing a frame -/

/-- What the ring holds of a frame from its page on. -/
def recordAt (hdr : List Byte) (buf : Nat → Byte) (j : Nat) : Byte :=
  (hdr[j]?).getD (buf (j - 4))

theorem map_recordAt {hdr : List Byte} (header : hdr.length = 4) (n : Nat) :
    (List.range (n + 4)).map (recordAt hdr buf) = hdr ++ slice buf 0 n := by
  refine List.ext_getElem (by simp [header]; omega) fun j left right => ?_
  rw [List.getElem_map, List.getElem_range, recordAt, List.getElem_append]
  split
  · rename_i inHeader
    rw [List.getElem?_eq_getElem inHeader, Option.getD_some]
  · rename_i behind
    rw [List.getElem?_eq_none (by omega), Option.getD_none, getElem_slice, Nat.zero_add, header]

/-- The two copies of a frame's start are one. -/
theorem overlay_record {hdr : List Byte} {mem : Nat → Byte} {base m j : Nat}
    (header : hdr.length = 4) (inside : j < m + 4) :
    overlay (overlay mem base hdr) (base + 4) (slice buf 0 m) (base + j) = recordAt hdr buf j := by
  have joined := overlay_append mem base hdr (slice buf 0 m)
  rw [header] at joined
  rw [← joined, ← map_recordAt header, overlay_add (by simpa using inside)]
  simp

theorem overlay_record_outside {hdr : List Byte} {mem : Nat → Byte} {base m a : Nat}
    (header : hdr.length = 4) (outside : a < base ∨ base + (m + 4) ≤ a) :
    overlay (overlay mem base hdr) (base + 4) (slice buf 0 m) a = mem a := by
  have joined := overlay_append mem base hdr (slice buf 0 m)
  rw [header] at joined
  rw [← joined, overlay_of_outside]
  rw [List.length_append, header, length_slice]
  omega

theorem length_pkthdr (multicast : Bool) (next : Int) (ioLen : Nat) :
    (pkthdr multicast next ioLen).length = 4 := rfl

/-- What a receive writes into the packet memory of an accepted frame. -/
structure Written (s : Ne2000) (buf : Nat → Byte) (n : Nat) (next : Nat) (mem : Nat → Byte) :
    Prop where
  inRing : s.pageStart ≤ next ∧ next < s.pageStop
  record : ∀ j < n + 4, mem (s.ringAt s.currPage j) =
    recordAt (pkthdr ((buf 0).getLsbD 0) next n) buf j
  kept : ∀ a, a / 256 < s.pageStart ∨ s.pageStop ≤ a / 256 ∨ s.Unread (a / 256) → mem a = s.mem a

theorem pagesOf_bounds (n : Nat) : n + 8 ≤ pagesOf n * 256 ∧ pagesOf n * 256 ≤ n + 263 := by
  unfold pagesOf
  omega

/-- Where there is room the frame ends before BNRY. -/
theorem room_of_avail (ring : Ring s) {pages : Nat} (room : (pages : Int) < s.avail) :
    if s.boundPtr ≤ s.currPage then s.currPage + pages < s.pageStop + (s.boundPtr - s.pageStart)
    else s.currPage + pages < s.boundPtr := by
  obtain ⟨-, -, bnry, curr⟩ := ring
  unfold avail at room
  split at room <;> split <;> omega

/-- A frame that ends at PSTOP or before it is copied in one piece. -/
theorem written_whole (buf : Nat → Byte) (ring : Ring s) (room : (pagesOf n : Int) < s.avail)
    (fits : s.currPage + pagesOf n ≤ s.pageStop) {next : Nat}
    (isNext : next = if s.currPage + pagesOf n = s.pageStop then s.pageStart
      else s.currPage + pagesOf n) :
    Written s buf n next (overlay (overlay s.mem (s.currPage * 256)
      (pkthdr ((buf 0).getLsbD 0) next n)) (s.currPage * 256 + 4) (slice buf 0 n)) where
  inRing := by
    obtain ⟨-, -, bnry, curr⟩ := ring
    split at isNext <;> omega
  record j inside := by
    have size := pagesOf_bounds n
    rw [ringAt, if_pos (by omega)]
    exact overlay_record (length_pkthdr ..) inside
  kept a outside := by
    have size := pagesOf_bounds n
    have ends := room_of_avail ring room
    apply overlay_record_outside (length_pkthdr ..)
    rcases outside with before | after | unread
    · obtain ⟨-, -, -, curr⟩ := ring
      omega
    · omega
    · unfold Unread at unread
      split at unread
      · omega
      · rename_i behind
        rw [if_neg behind] at ends
        omega

/-- A frame that passes PSTOP is copied in two pieces. -/
theorem written_split (buf : Nat → Byte) (ring : Ring s) (room : (pagesOf n : Int) < s.avail)
    (crosses : s.pageStop < s.currPage + pagesOf n) {next endbytes : Nat}
    (isNext : next + s.pageStop = s.currPage + pagesOf n + s.pageStart)
    (isEnd : endbytes = (s.pageStop - s.currPage) * 256) :
    Written s buf n next (overlay (overlay (overlay s.mem (s.currPage * 256)
      (pkthdr ((buf 0).getLsbD 0) next n)) (s.currPage * 256 + 4) (slice buf 0 (endbytes - 4)))
      (s.pageStart * 256) (slice buf (endbytes - 4) (n + 8 - endbytes))) := by
  have size := pagesOf_bounds n
  have ends := room_of_avail ring room
  obtain ⟨-, -, bnry, curr⟩ := ring
  have released : s.boundPtr ≤ s.currPage := by
    by_contra behind
    rw [if_neg behind] at ends
    omega
  rw [if_pos released] at ends
  have before : s.pageStart * 256 + (n + 8 - endbytes) ≤ next * 256 := by omega
  refine ⟨by omega, fun j inside => ?_, fun a outside => ?_⟩
  · unfold ringAt
    split
    · rename_i first
      rw [overlay_of_outside (by rw [length_slice]; omega)]
      exact overlay_record (length_pkthdr ..) (by omega)
    · rename_i second
      have address : s.currPage * 256 + j - (s.pageStop - s.pageStart) * 256 =
          s.pageStart * 256 + (j - endbytes) := by omega
      rw [address, overlay_add (by rw [length_slice]; omega), getElem_slice, recordAt,
        List.getElem?_eq_none (by rw [length_pkthdr]; omega), Option.getD_none]
      congr 1
      omega
  · have apart : (a / 256 < s.pageStart ∨ s.pageStop ≤ a / 256) ∨
        s.boundPtr ≤ a / 256 ∧ a / 256 < s.currPage := by
      rcases outside with low | high | unread
      · exact .inl (.inl low)
      · exact .inl (.inr high)
      · rw [Unread, if_pos released] at unread
        exact .inr unread
    rw [overlay_of_outside (by rw [length_slice]; omega)]
    exact overlay_record_outside (length_pkthdr ..) (by omega)

/-- The state after a frame was stored. -/
def received (s : Ne2000) (buf : Nat → Byte) (next : Nat) (mem : Nat → Byte) : Ne2000 :=
  { s with
    mem
    currPage := next
    rsrRxOk := true
    rsrRxMbit := (buf 0).getLsbD 7 || s.rsrRxMbit
    isrPktRx := true
    irq := s.imrRxInte || s.irq }

theorem rxFrame_dropped (long : 60 ≤ n) (refused : s.accepts buf n = false) :
    (s.rxFrame buf n).after = s ∧ (s.rxFrame buf n).readTo ≤ 6 := by
  unfold rxFrame
  split
  · exact ⟨rfl, Nat.zero_le _⟩
  rename_i running
  dsimp only
  split
  · exact ⟨rfl, Nat.zero_le _⟩
  rename_i room
  split
  · exact ⟨rfl, Nat.zero_le _⟩
  split
  · exact ⟨rfl, Nat.le_refl _⟩
  rename_i passed
  simp only [Bool.or_eq_true, decide_eq_true_eq, not_or, Bool.not_eq_true] at running room passed
  have accepted : s.accepts buf n = true := by
    simp only [accepts, running.1, running.2, passed, Bool.and_eq_true, Bool.or_eq_true,
      decide_eq_true_eq, ne_eq, Bool.not_false, not_false_eq_true, true_and, and_true]
    omega
  exact absurd (refused.symm.trans accepted) Bool.false_ne_true

/-- An accepted frame is stored, and read past its end exactly where it passes PSTOP. -/
theorem rxFrame_accepted (ring : Ring s) (long : 60 ≤ n) (accepted : s.accepts buf n = true) :
    ∃ next mem, (s.rxFrame buf n).after = s.received buf next mem ∧ Written s buf n next mem ∧
      (s.rxFrame buf n).readTo = if s.currPage + pagesOf n ≤ s.pageStop then n else n + 4 := by
  simp only [accepts, Bool.and_eq_true, Bool.not_eq_true', decide_eq_true_eq, ne_eq] at accepted
  obtain ⟨⟨⟨⟨running, configured⟩, room⟩, -⟩, passed⟩ := accepted
  have size := pagesOf_bounds n
  have ends := room_of_avail ring room
  obtain ⟨-, high, bnry, curr⟩ := id ring
  have runs : (s.crStop || decide (s.pageStart = 0)) = false := by
    rw [running, decide_eq_false configured]
    rfl
  have noShortage : (decide (s.avail < pagesOf n) || decide (s.avail = pagesOf n)) = false := by
    rw [decide_eq_false (by omega), decide_eq_false (by omega)]
    rfl
  have noRunt : (decide (n < 40) && !s.rcrRuntsOk) = false := by
    rw [decide_eq_false (by omega)]
    rfl
  unfold rxFrame
  simp only [runs, noShortage, noRunt, passed, if_neg (Nat.not_lt.mpr long), Bool.false_eq_true,
    if_false]
  by_cases fits : s.currPage + pagesOf n ≤ s.pageStop
  · obtain ⟨next, isNext⟩ : ∃ next, next = if s.currPage + pagesOf n = s.pageStop then s.pageStart
      else s.currPage + pagesOf n := ⟨_, rfl⟩
    have written := written_whole buf ring room fits isNext
    have computed : s.nextpage (pagesOf n) = next := by
      unfold nextpage
      dsimp only
      split at isNext <;> split <;> omega
    have whole : (s.currPage < (next : Int) || decide (s.currPage + pagesOf n = s.pageStop)) =
        true := by
      simp only [Bool.or_eq_true, decide_eq_true_eq]
      split at isNext <;> omega
    have truncated : ((next : Int) % 256).toNat = next := by
      have := written.inRing
      omega
    rw [computed, whole, truncated, if_pos rfl, if_pos fits]
    exact ⟨next, _, rfl, written, rfl⟩
  · have released : s.boundPtr ≤ s.currPage := by
      by_contra behind
      rw [if_neg behind] at ends
      omega
    rw [if_pos released] at ends
    obtain ⟨next, isNext⟩ : ∃ next, next + s.pageStop = s.currPage + pagesOf n + s.pageStart :=
      ⟨s.currPage + pagesOf n + s.pageStart - s.pageStop, by omega⟩
    have written := written_split buf ring room (by omega) isNext rfl
    have computed : s.nextpage (pagesOf n) = next := by
      unfold nextpage
      dsimp only
      split <;> omega
    have splits : (s.currPage < (next : Int) || decide (s.currPage + pagesOf n = s.pageStop)) =
        false := by
      simp only [Bool.or_eq_false_iff, decide_eq_false_iff_not]
      omega
    have truncated : ((next : Int) % 256).toNat = next := by omega
    rw [computed, splits, truncated, if_neg Bool.false_ne_true, if_neg fits]
    refine ⟨next, _, rfl, written, ?_⟩
    dsimp only
    omega

theorem Written.stored {next : Nat} {mem : Nat → Byte} (ring : Ring s)
    (room : (pagesOf n : Int) < s.avail) (written : Written s buf n next mem) :
    Stored s buf n (s.received buf next mem) where
  record := by
    have size := pagesOf_bounds n
    have ends := room_of_avail ring room
    obtain ⟨low, high, bnry, curr⟩ := ring
    refine (take_asicReads (s := s.received buf next mem) low high curr ?_).trans ?_
    · change n + 4 < (s.pageStop - s.pageStart) * 256
      split at ends <;> omega
    rw [← map_recordAt (length_pkthdr ..)]
    exact List.map_congr_left fun j inside => written.record j (List.mem_range.mp inside)
  kept := written.kept

theorem Written.ring {next : Nat} {mem : Nat → Byte} (ring : Ring s)
    (written : Written s buf n next mem) : Ring (s.received buf next mem) :=
  ⟨ring.low, ring.high, ring.bnry, written.inRing⟩

theorem accepts_room (accepted : s.accepts buf n = true) : (pagesOf n : Int) < s.avail := by
  simp only [accepts, Bool.and_eq_true, decide_eq_true_eq] at accepted
  exact accepted.1.1.2

/-- A received frame is dropped or stored exactly, and is read past its end exactly where it is
stored across PSTOP. -/
theorem rxExact_iff (ring : Ring s) (long : 60 ≤ n) : RxExact s buf n (s.rxFrame buf n) ↔
    s.accepts buf n = false ∨ s.currPage + pagesOf n ≤ s.pageStop := by
  cases accepted : s.accepts buf n with
  | false =>
    obtain ⟨same, readTo⟩ := rxFrame_dropped long accepted
    exact iff_of_true ⟨.inl same, same.symm ▸ ring, by omega⟩ (.inl rfl)
  | true =>
    obtain ⟨next, mem, after, written, readTo⟩ := rxFrame_accepted ring long accepted
    rw [or_iff_right (by exact nofun)]
    constructor
    · intro exact
      have within := exact.within
      rw [readTo] at within
      by_contra outside
      rw [if_neg outside] at within
      omega
    · intro fits
      rw [if_pos fits] at readTo
      exact ⟨.inr (after ▸ written.stored ring (accepts_room accepted)),
        after ▸ written.ring ring, Nat.le_of_eq readTo⟩

/-! ## Runs -/

/-- What happens to the card between two receives. -/
inductive NicOp
  | rx (buf : Nat → Byte) (n : Nat)
  | bnry (value : Byte)
  | rsar0 (value : Byte)
  | rsar1 (value : Byte)
  | rbcr0 (value : Byte)
  | rbcr1 (value : Byte)
  | read

def step (s : Ne2000) : NicOp → Option Ne2000
  | .rx buf n => some (s.rxFrame buf n).after
  | .bnry value => some (s.writeBnry value)
  | .rsar0 value => some (s.writeRsar0 value)
  | .rsar1 value => some (s.writeRsar1 value)
  | .rbcr0 value => some (s.writeRbcr0 value)
  | .rbcr1 value => some (s.writeRbcr1 value)
  | .read => some s.asicReadW.2

/-- Frames are of ethernet's sizes, and the guest keeps BNRY inside the ring. -/
def Allowed (s : Ne2000) : NicOp → Prop
  | .rx _ n => 60 ≤ n ∧ n ≤ 1518
  | .bnry value => s.pageStart ≤ value.toNat ∧ value.toNat < s.pageStop
  | _ => True

instance (s : Ne2000) (op : NicOp) : Decidable (s.Allowed op) :=
  match op with
  | .rx .. => inferInstanceAs (Decidable (_ ∧ _))
  | .bnry .. => inferInstanceAs (Decidable (_ ∧ _))
  | .rsar0 .. | .rsar1 .. | .rbcr0 .. | .rbcr1 .. | .read => inferInstanceAs (Decidable True)

theorem Ring.step {op : NicOp} (ring : Ring s) (allowed : s.Allowed op)
    (next : s.step op = some t) : Ring t := by
  cases op with
  | rx buf n =>
    cases next
    cases accepted : s.accepts buf n with
    | false => exact (rxFrame_dropped allowed.1 accepted).1.symm ▸ ring
    | true =>
      obtain ⟨next, mem, after, written, -⟩ := rxFrame_accepted ring allowed.1 accepted
      exact after ▸ written.ring ring
  | bnry value =>
    cases next
    exact ⟨ring.low, ring.high, allowed, ring.curr⟩
  | read =>
    cases next
    unfold asicReadW
    split <;> exact ⟨ring.low, ring.high, ring.bnry, ring.curr⟩
  | _ =>
    cases next
    exact ⟨ring.low, ring.high, ring.bnry, ring.curr⟩

/-- In every state that receives, BNRY updates and remote DMA reach from a configured ring, a
received frame is handled exactly unless it is stored across PSTOP. -/
theorem rxExact_iff_of_run {s₀ : Ne2000} (config : Ring s₀) (run : RunOk step Allowed s₀ s)
    (buf : Nat → Byte) (size : 60 ≤ n ∧ n ≤ 1518) : RxExact s buf n (s.rxFrame buf n) ↔
      s.accepts buf n = false ∨ s.currPage + pagesOf n ≤ s.pageStop :=
  rxExact_iff (run.invariant config Ring.step) size.1

/-- A card in promiscuous mode with a ring of the pages `0x40` to `0x7f`. -/
def card (bnry curr : Nat) : Ne2000 where
  crStop := false
  isrPktRx := false
  isrRdmaDone := false
  imrRxInte := false
  imrRdmaInte := false
  dcrWdsize := true
  rcrRuntsOk := false
  rcrBroadcast := false
  rcrMulticast := false
  rcrPromisc := true
  rsrRxOk := false
  rsrRxMbit := false
  pageStart := 0x40
  pageStop := 0x80
  boundPtr := bnry
  currPage := curr
  remoteStart := 0
  remoteDma := 0
  remoteBytes := 0
  physaddr := []
  mchash _ := 0
  macaddr _ := 0
  mem _ := 0
  irq := false

/-- A frame of 60 bytes on an empty ring is stored exactly. -/
theorem rxExact_card : RxExact (card 0x40 0x40) (fun _ => 1) 60
    ((card 0x40 0x40).rxFrame (fun _ => 1) 60) := by
  have config : Ring (card 0x40 0x40) := ⟨by decide, by decide, by decide, by decide⟩
  exact (rxExact_iff_of_run config .refl (fun _ => 1) (by decide)).mpr (.inr (by decide))

/-- A frame of 300 bytes from the ring's last page on is read up to its 304th byte. -/
theorem not_rxExact_split : ¬ ∀ s₀ s, Ring s₀ → RunOk step Allowed s₀ s → ∀ buf n,
    60 ≤ n ∧ n ≤ 1518 → RxExact s buf n (s.rxFrame buf n) := by
  intro exact
  have config : Ring (card 0x60 0x7f) := ⟨by decide, by decide, by decide, by decide⟩
  have within := (exact _ _ config .refl (fun _ => 1) 300 (by decide)).within
  revert within
  decide

end Ne2000

end PCemWeb.Network
