import PCemWeb.Ide.BackEndBrowser
import PCemWeb.Ide.BackEndRam

/-!
# When the back ends agree

The three conditions together: a call transfers exactly the requested sectors inside the image and
reports the rest just in the requests that `Served` names. Where no transfer fails, calls that are
exact agree, whichever the kinds of the images.
-/

namespace PCemWeb.Ide

namespace BackEnd

variable {img img' : Image} {op : Op} {offset : Int} {nrSectors : Nat} {fault fault' : Option Nat}
  {s s' : Store} {buffer : Nat → Byte} {r r' : Outcome}

/-- The same request to two images of the same content has the same effect. -/
theorem Exact.agree (exact_ : Exact img op offset nrSectors fault s buffer r)
    (other : Exact img' op offset nrSectors fault' s' buffer r')
      (sectors : img'.sectors = img.sectors)
    (readOnly : img'.readOnly = img.readOnly) (size : s'.size = s.size)
    (content : ∀ a < s.size, s'.bytes a = s.bytes a) (whole : s.size = img.sectors * 512)
    (fine : ¬ Fails img op offset nrSectors fault)
    (fine' : ¬ Fails img' op offset nrSectors fault') :
    (r.ret ≠ 0 ↔ r'.ret ≠ 0) ∧ r'.store.size = r.store.size ∧ r'.buffer = r.buffer ∧
      ∀ a < s.size, r'.store.bytes a = r.store.bytes a := by
  have writes : Writes img' op ↔ Writes img op := by rw [Writes, readOnly, Writes]
  refine ⟨?_, by rw [exact_.size, other.size, size], funext fun i => ?_, fun a inImage => ?_⟩
  · rw [exact_.ret, other.ret, sectors, readOnly]
    simp only [fine, fine']
  · by_cases wanted : op = .read ∧ Wanted img.sectors offset nrSectors i
    · have inside := wanted.2
      unfold Wanted at inside
      rw [exact_.bufferRead wanted.1 fine i wanted.2,
        other.bufferRead wanted.1 fine' i (by rw [sectors]; exact wanted.2),
        content _ (by omega)]
    · rw [exact_.bufferKept i wanted, other.bufferKept i (by rw [sectors]; exact wanted)]
  · by_cases reached : Writes img op ∧ Reached offset nrSectors a
    · rw [exact_.imageWritten reached.1 fine a inImage reached.2,
        other.imageWritten (writes.mpr reached.1) fine' a (by rw [size]; exact inImage) reached.2]
    · rw [exact_.imageKept a inImage reached,
        other.imageKept a (by rw [size]; exact inImage) (by rw [writes]; exact reached),
        content a inImage]

/-- A read-only image refuses to be written. -/
theorem meets_of_readOnly (writes : op ≠ .read) (readOnly : img.readOnly = true) :
    Meets img op offset nrSectors fault := by
  intro host s buffer holds _
  have refused : run img host offset nrSectors s buffer op = ⟨1, s, buffer⟩ := by
    cases op with
    | read => exact absurd rfl writes
    | write => simp only [run, hddWriteSectors, readOnly, if_true]
    | format => simp only [run, hddFormatSectors, readOnly, if_true]
  rw [refused]
  exact exact_of_idle holds ⟨rfl, rfl, rfl⟩
    ⟨fun _ => .inr (.inl ⟨writes, readOnly⟩), fun _ => Int.one_ne_zero⟩
    (.inr (.inr ⟨writes, readOnly⟩))

/-- A call is exact, for every content, position and extent of a failure, just when the request is
one of those that the kind of image serves. -/
theorem meets_iff_served (request : Request op offset nrSectors) :
    Meets img op offset nrSectors fault ↔ Served img op offset nrSectors fault := by
  unfold Served
  by_cases refused : op ≠ .read ∧ img.readOnly = true
  · exact iff_of_true (meets_of_readOnly refused.1 refused.2) (.inl refused)
  have active : op = .read ∨ img.readOnly = false := by
    by_cases reads : op = .read
    · exact .inl reads
    · exact .inr (Bool.not_eq_true _ ▸ fun readOnly => refused ⟨reads, readOnly⟩)
  rw [or_iff_right refused]
  cases kind : img.kind with
  | raw => exact raw_meets kind active request
  | rawRam => exact ram_meets kind active request
  | browser => exact browser_meets kind active request

/-- A raw image of four sectors. -/
def fourSectors : Image :=
  { kind := .raw, sectors := 4, readOnly := false, capacity := 0, positive := by decide
    small := by decide, room := fun ram => by cases ram }

/-- A read that runs past the end transfers its first sectors and reports the rest. -/
theorem meets_fourSectors : Meets fourSectors .read 2 3 (some 0) ∧
    ¬ Meets fourSectors .read 2 1 (some 0) := by
  have fails (n : Nat) (some_ : 0 < owed 4 2 n) : Fails fourSectors .read 2 n (some 0) :=
    (fails_iff (by decide) (by decide)).mpr ⟨rfl, some_⟩
  refine ⟨(meets_iff_served ⟨by decide, by decide, by decide, by decide⟩).mpr ?_, fun meets => ?_⟩
  · exact .inr (.inr ⟨by decide, fun _ => by decide⟩)
  · rcases (meets_iff_served ⟨by decide, by decide, by decide, by decide⟩).mp meets with
      ⟨wrong, -⟩ | served
    · exact wrong rfl
    · have : (4 : Int) < 2 + (1 : Nat) :=
        (served.resolve_left (by decide)).2 (fails 1 (by decide))
      revert this
      decide

/-- A read of the sector before the first one succeeds. -/
theorem not_meets_before : ¬ Meets fourSectors .read (-1) 1 none := by
  intro meets
  have := (raw_before none rfl (.inl rfl) ⟨by decide, by decide, by decide, by decide⟩
    (by decide) (by decide)).mp meets
  revert this
  decide

end BackEnd

end PCemWeb.Ide
