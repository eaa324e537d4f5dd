import PCemWeb.Ide.BackEndExact

/-!
# Browser images

`diskio_rw` refuses a range outside the image and its answer is passed on, so that a browser image
serves every request that begins at 0 or later, except a read or a write of no sectors.
-/

namespace PCemWeb.Ide

open PCemWeb.Lib

namespace BackEnd

variable {img : Image} {op : Op} {offset : Int} {nrSectors sectors : Nat} {fault : Option Nat}
  {s : Store} {buffer : Nat → Byte} {host : Host}

theorem byteOffset_of_nonneg (start : 0 ≤ offset) (high : offset < 2147483648) :
    byteOffset offset = (offset * 512).toNat := by
  unfold byteOffset
  rw [Int.emod_eq_of_lt (by omega) (by omega)]

/-- Before the image, the byte offset wraps to one that lies past every image. -/
theorem not_inside_of_neg (low : offset < 0) (bound : -2147483648 ≤ offset)
    (whole : s.size < 1099511627776) {len : Int} (some_ : 0 < len) :
    diskioInside s (byteOffset offset) len = false := by
  unfold diskioInside byteOffset
  rw [decide_eq_false_iff_not]
  omega

theorem inside_of_le {base : Nat} {len : Int} (fits : (base : Int) + len ≤ s.size) :
    diskioInside s base len = true :=
  decide_eq_true fits

/-- The loop of a format inside the image. -/
theorem browserZero_inside (host : Host) (s : Store) (start : 0 ≤ offset) (left c : Nat)
    (inside : (offset + c + left) * 512 ≤ s.size) (high : offset + c + left < 2147483648) :
    ∃ moved ≤ left * 512, (browserZero host offset left c s).2.size = s.size ∧
      (browserZero host offset left c s).2.bytes =
        overlay s.bytes ((offset + c) * 512).toNat (slice zeros 0 moved) ∧
      ((browserZero host offset left c s).1 = false ↔ moved = left * 512) ∧
      (moved = left * 512 ↔ ∀ d < left, host.short (c + d) = none) := by
  induction left generalizing c s with
  | zero => exact ⟨0, by omega, rfl, by simp [browserZero], by simp [browserZero], by simp⟩
  | succ left ih =>
    have base : byteOffset (wrapInt (offset + c)) = ((offset + c) * 512).toNat := by
      rw [wrapInt_of_small (by omega) (by omega), byteOffset_of_nonneg (by omega) (by omega)]
    have fits : diskioInside s (byteOffset (wrapInt (offset + c))) 512 = true := by
      rw [base]
      exact inside_of_le (by omega)
    have atMost := granted_le (host.short c) 512
    have write : diskioWrite (host.short c) s (byteOffset (wrapInt (offset + c))) 512 zeros =
        (granted (host.short c) 512 != 512,
          { s with bytes := overlay s.bytes ((offset + c) * 512).toNat
                      (slice zeros 0 (granted (host.short c) 512)) }) := by
      unfold diskioWrite
      rw [fits, base]
      rfl
    unfold browserZero
    dsimp only
    rw [write]
    dsimp only
    cases answer : host.short c with
    | none =>
      have moved : granted none 512 = 512 := rfl
      obtain ⟨rest, few, size, bytes, done, all⟩ := ih (s := { s with
        bytes := overlay s.bytes ((offset + c) * 512).toNat (slice zeros 0 512) }) (c + 1)
        (by simp only; omega) (by omega)
      rw [moved, if_neg (by decide)]
      have next : ((offset + (c + 1 : Nat)) * 512).toNat = ((offset + c) * 512).toNat + 512 := by
        omega
      refine ⟨512 + rest, by omega, size, ?_, ?_, ?_⟩
      · rw [bytes, next, overlay_zeros]
      · rw [done]
        omega
      · constructor
        · intro whole d before
          cases d with
          | zero => exact answer
          | succ d =>
            have := all.mp (by omega) d (by omega)
            rwa [Nat.add_assoc, Nat.add_comm 1] at this
        · intro fine
          have := all.mpr fun d before => by
            rw [Nat.add_assoc, Nat.add_comm 1]
            exact fine (d + 1) (by omega)
          omega
    | some k =>
      have fewer : granted (some k) 512 < 512 := granted_lt (by simp) (by decide)
      rw [if_pos (by simp; omega)]
      refine ⟨granted (some k) 512, by omega, rfl, rfl, ?_, ?_⟩
      · refine iff_of_false ?_ (by omega)
        simp only [bne_eq_false_iff_eq]
        omega
      · refine iff_of_false (by omega) fun fine => ?_
        have := fine 0 (by omega)
        rw [Nat.add_zero, answer] at this
        cases this

/-- Some transfer of a format fails when the first failing one is among them. -/
theorem Follows.all_iff {t : Nat} (follows : Follows fault host.short) (kind : img.kind ≠ .rawRam)
    (owedEq : owed img.sectors offset nrSectors = t) :
    (∀ d < t, host.short d = none) ↔ ¬ Fails img .format offset nrSectors fault := by
  constructor
  · rintro fine ⟨-, c, there, early⟩
    rw [transfers, if_pos rfl, owedEq] at early
    exact follows.there c there (fine c early)
  · exact follows.all kind owedEq

/-- A result of 1 for a failure, and else whether the count was cut. -/
theorem failed_or_partly {failed : Bool} {t : Nat}
    (wrong : failed = true ↔ Fails img op offset nrSectors fault) :
    (if failed then 1 else partly nrSectors (t : Int)) ≠ 0 ↔
      t ≠ nrSectors ∨ Fails img op offset nrSectors fault := by
  rw [← wrong]
  cases failed with
  | true => simp
  | false =>
    rw [if_neg (by decide), partly_ne_zero]
    simp only [Bool.false_eq_true, or_false]
    omega

/-- A browser image serves a request inside it. -/
theorem browser_front {t : Nat} (kind : img.kind = .browser)
    (active : op = .read ∨ img.readOnly = false) (request : Request op offset nrSectors)
    (front : Front img.sectors offset nrSectors t) (some_ : op ≠ .format → 0 < t)
    (holds : Holds img s) (follows : Follows fault host.short) :
    Exact img op offset nrSectors fault s buffer (run img host offset nrSectors s buffer op) := by
  have start := front.start
  have inside := front.inside
  have count := front.count
  have whole := holds.size
  have small := img.small
  have notBrowser : img.kind ≠ .rawRam := by rw [kind]; decide
  have base := byteOffset_of_nonneg start request.high
  have single (single : op ≠ .format) : wrapInt (transferSectors img.sectors offset nrSectors * 512)
    =
      t * 512 := by
    have memory := request.memory single
    rw [front.transfer, wrapInt_of_small (by omega) (by omega)]
  have fits : diskioInside s (offset * 512).toNat (t * 512) = true := inside_of_le (by omega)
  have wrong (single : op ≠ .format) : (granted (host.short 0) (t * 512) != t * 512) = true ↔
      Fails img op offset nrSectors fault := by
    rw [bne_iff_ne, Ne, granted_front front single notBrowser follows, Classical.not_not]
  have length : ((t : Int) * 512).toNat = t * 512 := by omega
  cases op with
  | read =>
    have positive : ¬ transferSectors img.sectors offset nrSectors ≤ 0 := by
      have := some_ (by decide)
      rw [front.transfer]
      omega
    refine exact_of_read (granted (host.short 0) (t * 512)) front (granted_le _ _)
      (granted_front front (by decide) notBrowser follows).mpr ?_ ?_ ?_ ?_ <;>
      simp only [run, hddReadSectors, kind, if_neg positive, diskioRead, base,
        single (by decide), fits, Bool.not_true, Bool.false_eq_true, if_false, length]
    rw [front.transfer]
    exact failed_or_partly (wrong (by decide))
  | write =>
    have writable := active.resolve_left (by decide)
    have positive : ¬ transferSectors img.sectors offset nrSectors ≤ 0 := by
      have := some_ (by decide)
      rw [front.transfer]
      omega
    refine exact_of_write (granted (host.short 0) (t * 512)) buffer front
      ⟨by decide, writable⟩ holds
      (granted_le _ _)
      (granted_front front (by decide) notBrowser follows).mpr ?_ ?_ (fun a _ => ?_) (fun i => rfl)
      ?_ <;>
      simp only [run, hddWriteSectors, kind, writable, if_neg positive, diskioWrite, base,
        single (by decide), fits, Bool.not_true, Bool.false_eq_true, if_false, length]
    rw [front.transfer]
    exact failed_or_partly (wrong (by decide))
  | format =>
    have writable := active.resolve_left (by decide)
    have left : (transferSectors img.sectors offset nrSectors).toNat = t := by
      rw [front.transfer]
      rfl
    obtain ⟨moved, atMost, size, bytes, done, all⟩ := browserZero_inside host s start t 0 (by omega)
      (by omega)
    have complete : moved = t * 512 ↔ ¬ Fails img .format offset nrSectors fault := by
      rw [all, ← follows.all_iff notBrowser front.owed]
      simp only [Nat.zero_add]
    refine exact_of_write moved zeros front ⟨by decide, writable⟩ holds atMost
      complete.mpr ?_ ?_ (fun a _ => ?_) (fun i => rfl) ?_ <;>
      simp only [run, hddFormatSectors, kind, writable, Bool.false_eq_true, if_false, left]
    · exact size
    · rw [bytes]
      simp
    · rw [front.transfer]
      refine failed_or_partly ?_
      rw [← Bool.not_eq_false, done, complete, Classical.not_not]

/-- A browser image does nothing and reports an error. -/
theorem browser_idle (host : Host) (buffer : Nat → Byte) (kind : img.kind = .browser)
    (active : op = .read ∨ img.readOnly = false)
    (request : Request op offset nrSectors) (holds : Holds img s)
    (refused : (op ≠ .format ∧ transferSectors img.sectors offset nrSectors ≤ 0) ∨
      Far img.sectors offset ∨
      offset < 0 ∧ 0 < transferSectors img.sectors offset nrSectors) :
    (run img host offset nrSectors s buffer op).ret ≠ 0 ∧
      Idle s buffer (run img host offset nrSectors s buffer op) := by
  have small := img.small
  have whole := holds.size
  by_cases none_ : transferSectors img.sectors offset nrSectors ≤ 0
  · cases op with
    | read =>
      simp only [run, hddReadSectors, kind, if_pos none_]
      exact ⟨by decide, rfl, rfl, rfl⟩
    | write =>
      simp only [run, hddWriteSectors, kind, active.resolve_left (by decide), Bool.false_eq_true,
        if_false, if_pos none_]
      exact ⟨by decide, rfl, rfl, rfl⟩
    | format =>
      have far : Far img.sectors offset := by
        rcases refused with ⟨single, -⟩ | far | ⟨-, some_⟩
        · exact absurd rfl single
        · exact far
        · omega
      have left : (transferSectors img.sectors offset nrSectors).toNat = 0 :=
        Int.toNat_of_nonpos none_
      simp only [run, hddFormatSectors, kind, active.resolve_left (by decide), Bool.false_eq_true,
        if_false, left, browserZero]
      exact ⟨partly_far far small request, rfl, rfl, rfl⟩
  · have near : ¬ Far img.sectors offset := fun far =>
      none_ (Int.le_of_lt (transfer_far request small far).1)
    have low : offset < 0 := by
      rcases refused with ⟨-, low⟩ | far | ⟨low, -⟩
      · exact absurd low none_
      · exact absurd far near
      · exact low
    have value := (transfer_near request near).1
    have outside {len : Int} (some_ : 0 < len) :
        diskioInside s (byteOffset offset) len = false :=
      not_inside_of_neg low request.low (by omega) some_
    cases op with
    | read =>
      have memory := request.memory (by decide)
      have len : 0 < wrapInt (transferSectors img.sectors offset nrSectors * 512) := by
        rw [wrapInt_of_small (by omega) (by omega)]
        omega
      simp only [run, hddReadSectors, kind, if_neg none_, diskioRead, outside len, Bool.not_false,
        if_true]
      exact ⟨by decide, rfl, rfl, rfl⟩
    | write =>
      have memory := request.memory (by decide)
      have len : 0 < wrapInt (transferSectors img.sectors offset nrSectors * 512) := by
        rw [wrapInt_of_small (by omega) (by omega)]
        omega
      simp only [run, hddWriteSectors, kind, active.resolve_left (by decide), Bool.false_eq_true,
        if_false, if_neg none_, diskioWrite, outside len, Bool.not_false, if_true]
      exact ⟨by decide, rfl, rfl, rfl⟩
    | format =>
      obtain ⟨left, count⟩ : ∃ left,
          (transferSectors img.sectors offset nrSectors).toNat = left + 1 :=
        ⟨(transferSectors img.sectors offset nrSectors).toNat - 1, by omega⟩
      have first : wrapInt (offset + (0 : Nat)) = offset := by
        rw [wrapInt_of_small (by have := request.low; omega) (by omega)]
        omega
      simp only [run, hddFormatSectors, kind, active.resolve_left (by decide), Bool.false_eq_true,
        if_false, count, browserZero, first, diskioWrite, outside (show (0 : Int) < 512 by decide),
        Bool.not_false, if_true]
      exact ⟨by decide, rfl, rfl, rfl⟩

theorem browser_meets (kind : img.kind = .browser) (active : op = .read ∨ img.readOnly = false)
    (request : Request op offset nrSectors) :
    Meets img op offset nrSectors fault ↔ BrowserServed img op offset nrSectors fault := by
  have small := img.small
  unfold BrowserServed
  by_cases none_ : nrSectors = 0
  · subst none_
    rw [if_pos rfl]
    by_cases served : op = .format ∧ ¬ Far img.sectors offset
    · obtain ⟨rfl, near⟩ := served
      refine iff_of_true (fun host s buffer holds follows => ?_) ⟨rfl, near⟩
      obtain ⟨value, -⟩ := transfer_near request near
      have zero : transferSectors img.sectors offset 0 = 0 := by
        unfold Far at near
        omega
      have writable := active.resolve_left (by decide)
      refine exact_of_idle holds ⟨?_, ?_, ?_⟩ ?_ (.inl ?_)
      iterate 3
        simp only [run, hddFormatSectors, kind, writable, Bool.false_eq_true, if_false, zero,
          Int.toNat_zero, browserZero]
      · simp only [run, hddFormatSectors, kind, writable, Bool.false_eq_true, if_false, zero,
          Int.toNat_zero, browserZero]
        refine iff_of_false (by simp [partly]) ?_
        rintro (out | ⟨-, readOnly⟩ | failed)
        · have := outOfRange_iff.mp out
          omega
        · cases readOnly
        · exact not_fails_of_zero failed
      · unfold owed
        omega
    · refine iff_of_false (fun meets => ?_) served
      have holds := holds_filled img 0 fun _ => Nat.zero_le _
      have refused : (op ≠ .format ∧ transferSectors img.sectors offset 0 ≤ 0) ∨
          Far img.sectors offset ∨ offset < 0 ∧ 0 < transferSectors img.sectors offset 0 := by
        by_cases far : Far img.sectors offset
        · exact .inr (.inl far)
        · refine .inl ⟨fun formats => served ⟨formats, far⟩, ?_⟩
          have := (transfer_near request far).1
          omega
      exact (browser_idle (hostOf fault) (fun _ => 1) kind active request holds
        refused).1 (ret_of_zero active (meets _ _ _ holds follows_hostOf))
  · rw [if_neg none_]
    have count : 0 < nrSectors := Nat.pos_of_ne_zero none_
    have still (out : OutOfRange img.sectors offset nrSectors) (refused) :=
      meets_iff_of_idle fault active out fun host s buffer holds _ =>
        browser_idle host buffer kind active request holds refused
    by_cases start : 0 ≤ offset
    · refine iff_of_true ?_ (.inl start)
      by_cases beyond : img.sectors < offset ∨ op ≠ .format ∧ img.sectors ≤ offset
      · refine (still (outOfRange_iff.mpr (by omega)) ?_).mpr (.inl ?_)
        · rcases beyond with beyond | ⟨single, atEnd⟩
          · exact .inr (.inl (.inl beyond))
          · refine .inl ⟨single, ?_⟩
            by_cases far : Far img.sectors offset
            · exact Int.le_of_lt (transfer_far request small far).1
            · have := (transfer_near request far).1
              omega
        · unfold owed
          omega
      · have near : ¬ Far img.sectors offset := by
          unfold Far
          omega
        obtain ⟨t, front⟩ := front_of_near request near start
        refine fun host s buffer holds follows =>
          browser_front kind active request front (fun single => ?_) holds follows
        have := front.cut
        have : ¬ img.sectors ≤ offset := fun atEnd => beyond (.inr ⟨single, atEnd⟩)
        omega
    · rw [still (outOfRange_iff.mpr (by omega)) ?_]
      · exact ⟨.inr, fun cases_ => cases_.resolve_left start⟩
      · by_cases far : Far img.sectors offset
        · exact .inr (.inl far)
        · refine .inr (.inr ⟨by omega, ?_⟩)
          have := (transfer_near request far).1
          omega

end BackEnd

end PCemWeb.Ide
