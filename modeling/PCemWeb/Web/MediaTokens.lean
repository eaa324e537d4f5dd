import PCemWeb.Web.Media
import PCemWeb.Lib.Run

/-!
# What a token resolves to

A token says the number of a slot and a name, and every consumer looks at the number alone. A slot
that is given up is taken by the next registration, so a token that is still stored, in this
session or since an earlier one, can be accepted for another disk. `TokensResolve` holds in the
runs in which a registration takes no slot that a stored token of another disk still names, and an
imported profile names no slot of another disk.
-/

namespace PCemWeb.Web

open PCemWeb.Lib

/-! ## Stored tokens -/

def Mounted.tokens (m : Mounted) : List Token := [m.cd, m.fda, m.fdb].filterMap Path.token?

/-- The profile objects that the page holds. -/
def Page.held (s : Page) : List Nat :=
  s.profiles ++ s.runningProfile.toList ++ s.boots.map Prod.fst

/-- The tokens that the page holds: in profiles, drives and the dialog, or not placed yet. -/
def Page.tokens (s : Page) : List Token :=
  s.held.flatMap (fun o => (s.objects o).tokens) ++ s.mounted.tokens ++
    s.editor.toList.flatMap (fun e => e.profile.tokens) ++ s.attaching

/-- Every stored token that is accepted reaches the disk that it was issued for. -/
def Page.TokensResolve (s : Page) : Prop :=
  ∀ t ∈ s.tokens, s.isDiskRegistered t = true → ∃ file, s.diskOf t = some file ∧ file.disk = t.disk

/-- The slot that a token names is free or holds the token's own disk. -/
def Page.owns (s : Page) (t : Token) : Bool := (s.disks t.id).all fun file => file.disk = t.disk

/-- The discipline under which no token changes its disk. -/
def Page.keepsTokens (s : Page) : Event → Bool
  | .register file =>
    s.freeSlot.all fun id => s.tokens.all fun t => t.id ≠ id || file.disk = t.disk
  | .importProfile p _ => p.tokens.all s.owns
  | _ => true

variable {s t : Page} {x : Token} {path : Path} {p : Profile}

theorem Page.owns_iff :
    s.owns x = true ↔ ∀ file, s.disks x.id = some file → file.disk = x.disk := by
  simp only [Page.owns]
  cases s.disks x.id <;> simp

/-- Fewer slots are taken. -/
theorem Page.owns_of_subset (own : s.owns x = true)
    (fewer : ∀ id file, t.disks id = some file → s.disks id = some file) : t.owns x = true :=
  Page.owns_iff.mpr fun file taken => Page.owns_iff.mp own file (fewer x.id file taken)

/-! ## The invariant -/

/-- Every token that the page holds names a free slot or its own. -/
structure Owned (s : Page) : Prop where
  objects : ∀ o ∈ s.held, ∀ x ∈ (s.objects o).tokens, s.owns x = true
  drives : ∀ x ∈ s.mounted.tokens, s.owns x = true
  dialog : ∀ e, s.editor = some e → ∀ x ∈ e.profile.tokens, s.owns x = true
  attaching : ∀ x ∈ s.attaching, s.owns x = true

theorem Owned.iff : Owned s ↔ ∀ x ∈ s.tokens, s.owns x = true := by
  constructor
  · intro owned x mem
    simp only [Page.tokens, List.mem_append, List.mem_flatMap, Option.mem_toList] at mem
    rcases mem with ((⟨o, held, inProfile⟩ | drive) | ⟨e, edited, inProfile⟩) | fresh
    · exact owned.objects o held x inProfile
    · exact owned.drives x drive
    · exact owned.dialog e edited x inProfile
    · exact owned.attaching x fresh
  · intro all
    have member (x : Token) (mem : (((∃ o ∈ s.held, x ∈ (s.objects o).tokens) ∨
        x ∈ s.mounted.tokens) ∨ ∃ e, s.editor = some e ∧ x ∈ e.profile.tokens) ∨
          x ∈ s.attaching) : s.owns x = true := by
      refine all x ?_
      simpa only [Page.tokens, List.mem_append, List.mem_flatMap, Option.mem_toList] using mem
    exact ⟨fun o held x inProfile => member x (.inl (.inl (.inl ⟨o, held, inProfile⟩))),
      fun x drive => member x (.inl (.inl (.inr drive))),
      fun e edited x inProfile => member x (.inl (.inr ⟨e, edited, inProfile⟩)),
      fun x fresh => member x (.inr fresh)⟩

theorem Owned.tokensResolve (owned : Owned s) : s.TokensResolve := by
  intro x mem registered
  obtain ⟨file, taken⟩ := Option.isSome_iff_exists.mp registered
  exact ⟨file, taken, Page.owns_iff.mp (Owned.iff.mp owned x mem) file taken⟩

theorem Owned.session (saved : List Profile) : Owned (.session saved) :=
  Owned.iff.mpr fun _ _ => Page.owns_iff.mpr fun _ taken => absurd taken (by simp [Page.session])

/-- The slots that are taken become fewer and the tokens stay. -/
theorem Owned.sweep (owned : Owned s) : Owned s.sweepOrphanDisks := by
  have fewer (id : Nat) (file : DiskFile)
      (taken : s.sweepOrphanDisks.disks id = some file) : s.disks id = some file :=
    (Option.filter_eq_some_iff.mp taken).1
  exact ⟨fun o held x mem => Page.owns_of_subset (owned.objects o held x mem) fewer,
    fun x mem => Page.owns_of_subset (owned.drives x mem) fewer,
    fun e edited x mem => Page.owns_of_subset (owned.dialog e edited x mem) fewer,
    fun x mem => Page.owns_of_subset (owned.attaching x mem) fewer⟩

theorem Owned.unregister (owned : Owned s) (slot : Nat) : Owned (s.unregister slot) := by
  have fewer (id : Nat) (file : DiskFile)
      (taken : (s.unregister slot).disks id = some file) : s.disks id = some file := by
    rcases eq_or_ne id slot with rfl | other
    · exact absurd taken (by simp [Page.unregister])
    · simpa only [Page.unregister, Function.update_of_ne other] using taken
  exact ⟨fun o held x mem => Page.owns_of_subset (owned.objects o held x mem) fewer,
    fun x mem => Page.owns_of_subset (owned.drives x mem) fewer,
    fun e edited x mem => Page.owns_of_subset (owned.dialog e edited x mem) fewer,
    fun x mem => Page.owns_of_subset (owned.attaching x mem) fewer⟩

theorem Owned.attached (owned : Owned s) (tokens : List Token) : Owned (s.attached tokens) :=
  ⟨owned.objects, owned.drives, owned.dialog,
    fun x mem => owned.attaching x (List.mem_filter.mp mem).1⟩

/-- A registration takes a slot that no stored token of another disk names. -/
theorem Owned.register {file : DiskFile} (owned : Owned s)
    (kept : s.keepsTokens (.register file) = true) : Owned (s.register file) := by
  simp only [Page.register]
  split
  · exact owned
  rename_i slot free
  simp only [Page.keepsTokens, free, Option.all_some, List.all_eq_true] at kept
  have own (x : Token) (mem : x ∈ s.tokens) :
      (Function.update s.disks slot (some file) x.id).all (fun f => f.disk = x.disk) = true := by
    rcases eq_or_ne x.id slot with same | other
    · have kept := kept x mem
      simpa [same] using kept
    · rw [Function.update_of_ne other]
      exact Owned.iff.mp owned x mem
  refine Owned.iff.mpr fun x mem => ?_
  simp only [Page.tokens, ← List.append_assoc] at mem
  rcases List.mem_append.mp mem with old | new
  · exact own x old
  · rw [List.mem_singleton.mp new]
    simp [Page.owns]

/-! ## Profiles that change -/

/-- A path that is no token, or an owned one. -/
def Page.ownsPath (s : Page) (q : Path) : Prop := ∀ x, q.token? = some x → s.owns x = true

theorem Page.owns_paths {paths : List Path} :
    (∀ x ∈ paths.filterMap Path.token?, s.owns x = true) ↔ ∀ q ∈ paths, s.ownsPath q := by
  simp only [List.mem_filterMap, Page.ownsPath]
  constructor
  · exact fun all q mem x token => all x ⟨q, mem, token⟩
  · rintro all x ⟨q, mem, token⟩
    exact all q mem x token

theorem Page.owns_profile : (∀ x ∈ p.tokens, s.owns x = true) ↔
    s.ownsPath p.cd ∧ s.ownsPath p.fda ∧ s.ownsPath p.fdb ∧ ∀ q ∈ p.hdd, s.ownsPath q := by
  rw [Profile.tokens, Page.owns_paths]
  simp only [Profile.paths, List.forall_mem_cons]

theorem Page.owns_mounted {m : Mounted} : (∀ x ∈ m.tokens, s.owns x = true) ↔
    s.ownsPath m.cd ∧ s.ownsPath m.fda ∧ s.ownsPath m.fdb := by
  rw [Mounted.tokens, Page.owns_paths]
  simp only [List.forall_mem_cons, List.not_mem_nil, false_imp_iff, implies_true, and_true]

/-- A profile object takes a value whose tokens are owned. -/
theorem Owned.put {o : Nat} (owned : Owned s) (own : ∀ x ∈ p.tokens, s.owns x = true) :
    Owned { s with objects := Function.update s.objects o p } := by
  refine ⟨fun o' held x mem => ?_, owned.drives, owned.dialog, owned.attaching⟩
  dsimp only at mem
  rcases eq_or_ne o' o with rfl | other
  · rw [Function.update_self] at mem
    exact own x mem
  · rw [Function.update_of_ne other] at mem
    exact owned.objects o' held x mem

/-- The page holds other objects, with owned tokens. -/
theorem Owned.rehold {profiles : List Nat} {saved : List Profile}
    {runningIndex runningProfile : Option Nat} {boots : List (Nat × Nat)} (owned : Owned s)
    (own : ∀ o ∈ profiles ++ runningProfile.toList ++ boots.map Prod.fst,
      ∀ x ∈ (s.objects o).tokens, s.owns x = true) :
    Owned { s with profiles, saved, runningIndex, runningProfile, boots } :=
  ⟨own, owned.drives, owned.dialog, owned.attaching⟩

/-- The drives hold other paths, with owned tokens. -/
theorem Owned.mount {mounted : Mounted} {core : Core} (owned : Owned s)
    (own : ∀ x ∈ mounted.tokens, s.owns x = true) : Owned { s with mounted, core } :=
  ⟨owned.objects, own, owned.dialog, owned.attaching⟩

theorem Page.running_mem_held {o : Nat} (running : s.runningProfile = some o) : o ∈ s.held := by
  simp [Page.held, running]

theorem Owned.updateRunning {f : Profile → Profile} (owned : Owned s)
    (own : ∀ p, (∀ x ∈ p.tokens, s.owns x = true) → ∀ x ∈ (f p).tokens, s.owns x = true) :
    Owned (s.updateRunning f) := by
  simp only [Page.updateRunning]
  split
  · exact owned
  rename_i o running
  have put := owned.put (o := o)
    (own _ (owned.objects o (Page.running_mem_held running)))
  split
  · exact ⟨put.objects, put.drives, put.dialog, put.attaching⟩
  · exact put

theorem Owned.setCd {a : CoreAnswer} (owned : Owned s) (own : s.ownsPath path) :
    Owned (s.setCd path a) := by
  have drives := Page.owns_mounted.mp owned.drives
  simp only [Page.setCd]
  split
  · exact owned
  refine Owned.sweep (Owned.updateRunning (owned.mount ?_) fun p all => ?_)
  · exact Page.owns_mounted.mpr ⟨own, drives.2⟩
  · exact Page.owns_profile.mpr ⟨own, (Page.owns_profile.mp all).2⟩

theorem Owned.setFloppy {b : Bool} (owned : Owned s) (own : s.ownsPath path) :
    Owned (s.setFloppy b path) := by
  obtain ⟨cd, fda, fdb⟩ := Page.owns_mounted.mp owned.drives
  simp only [Page.setFloppy]
  split
  · exact owned
  split
  · refine Owned.sweep (Owned.updateRunning (Owned.mount owned ?_) fun p all => ?_)
    · exact Page.owns_mounted.mpr ⟨cd, fda, own⟩
    · obtain ⟨cd, fda, -, hdd⟩ := Page.owns_profile.mp all
      exact Page.owns_profile.mpr ⟨cd, fda, own, hdd⟩
  · refine Owned.sweep (Owned.updateRunning (Owned.mount owned ?_) fun p all => ?_)
    · exact Page.owns_mounted.mpr ⟨cd, own, fdb⟩
    · obtain ⟨cd, -, rest⟩ := Page.owns_profile.mp all
      exact Page.owns_profile.mpr ⟨cd, own, rest⟩

/-! ## Saves, boots and stops -/

theorem Page.updateRunning_disks {f : Profile → Profile} : (s.updateRunning f).disks = s.disks := by
  simp only [Page.updateRunning]
  split
  · rfl
  · split <;> rfl

theorem Page.disks_of_sweep {id : Nat} {file : DiskFile}
    (taken : s.sweepOrphanDisks.disks id = some file) : s.disks id = some file :=
  (Option.filter_eq_some_iff.mp taken).1

/-- A CD swap takes no slot. -/
theorem Page.ownsPath_setCd {a : CoreAnswer} {q : Path} (own : s.ownsPath q) :
    (s.setCd path a).ownsPath q := by
  intro x token
  refine Page.owns_of_subset (own x token) fun id file taken => ?_
  simp only [Page.setCd] at taken
  split at taken
  · exact taken
  · have taken := Page.disks_of_sweep taken
    rwa [Page.updateRunning_disks] at taken

/-- A floppy swap takes no slot. -/
theorem Page.ownsPath_setFloppy {b : Bool} {q : Path} (own : s.ownsPath q) :
    (s.setFloppy b path).ownsPath q := by
  intro x token
  refine Page.owns_of_subset (own x token) fun id file taken => ?_
  simp only [Page.setFloppy] at taken
  split at taken
  · exact taken
  · split at taken <;>
      (have taken := Page.disks_of_sweep taken
       rwa [Page.updateRunning_disks] at taken)

theorem Owned.applyProfileToRunning {o : Nat} {a : CoreAnswer}
    (owned : Owned { s with runningProfile := some o })
    (own : ∀ x ∈ (s.objects o).tokens, s.owns x = true) :
    Owned (s.applyProfileToRunning o a) := by
  obtain ⟨cd, fda, fdb, -⟩ := Page.owns_profile.mp own
  simp only [Page.applyProfileToRunning]
  generalize (s.objects o).cd = cdPath, (s.objects o).fda = fdaPath, (s.objects o).fdb = fdbPath at *
  have withCd : ∀ {s : Page}, Owned s → s.ownsPath cdPath → s.ownsPath fdaPath →
      s.ownsPath fdbPath → ∀ next,
      next = (if cdPath.text ≠ s.mounted.cd.text then s.setCd cdPath a else s) →
      Owned next ∧ next.ownsPath fdaPath ∧ next.ownsPath fdbPath := by
    rintro s owned cd fda fdb _ rfl
    split
    · exact ⟨owned.setCd cd, Page.ownsPath_setCd fda, Page.ownsPath_setCd fdb⟩
    · exact ⟨owned, fda, fdb⟩
  have withFda : ∀ {s : Page}, Owned s → s.ownsPath fdaPath → s.ownsPath fdbPath → ∀ next,
      next = (if fdaPath.text ≠ s.mounted.fda.text then s.setFloppy false fdaPath else s) →
      Owned next ∧ next.ownsPath fdbPath := by
    rintro s owned fda fdb _ rfl
    split
    · exact ⟨owned.setFloppy fda, Page.ownsPath_setFloppy fdb⟩
    · exact ⟨owned, fdb⟩
  have withFdb : ∀ {s : Page}, Owned s → s.ownsPath fdbPath →
      Owned (if fdbPath.text ≠ s.mounted.fdb.text then s.setFloppy true fdbPath else s) := by
    intro s owned fdb
    split
    · exact owned.setFloppy fdb
    · exact owned
  obtain ⟨owned, fda, fdb⟩ := withCd owned cd fda fdb _ rfl
  obtain ⟨owned, fdb⟩ := withFda owned fda fdb _ rfl
  exact withFdb owned fdb

/-- A new object with owned tokens. -/
theorem Owned.alloc (owned : Owned s) (own : ∀ x ∈ p.tokens, s.owns x = true) :
    Owned (s.alloc p) := by
  have put := owned.put (o := s.nextObject) own
  exact ⟨put.objects, put.drives, put.dialog, put.attaching⟩

/-- What the page holds after a new object joins it. -/
theorem Owned.alloc_held {o : Nat} (owned : Owned s) (own : ∀ x ∈ p.tokens, s.owns x = true)
    (held : o ∈ s.held ∨ o = s.nextObject) :
    ∀ x ∈ ((s.alloc p).objects o).tokens, (s.alloc p).owns x = true := by
  rcases held with old | rfl
  · exact (owned.alloc own).objects o old
  · intro x mem
    simp only [Page.alloc, Function.update_self] at mem
    exact own x mem

theorem Owned.save {a : CoreAnswer} (owned : Owned s) : Owned (s.save a) := by
  simp only [Page.save]
  split
  · rename_i target np edited
    have own : ∀ x ∈ np.tokens, s.owns x = true := owned.dialog _ edited
    have alloc := owned.alloc own
    have dialog {profiles : List Nat} {saved : List Profile} {runningProfile : Option Nat}
        (held : ∀ o ∈ profiles ++ runningProfile.toList, o ∈ s.held ∨ o = s.nextObject) :
        Owned { s.alloc np with
          editor := some ⟨target, np, true⟩, profiles, saved, runningProfile } := by
      refine ⟨fun o mem => owned.alloc_held own ?_, alloc.drives, ?_, alloc.attaching⟩
      · rcases List.mem_append.mp mem with listed | booting
        · exact held o listed
        · exact .inl (List.mem_append_right _ booting)
      · rintro _ ⟨⟩
        exact own
    have running {o : Nat} (mem : o ∈ s.runningProfile.toList) : o ∈ s.held :=
      List.mem_append_left _ (List.mem_append_right _ mem)
    have listed {o : Nat} (mem : o ∈ s.profiles) : o ∈ s.held :=
      List.mem_append_left _ (List.mem_append_left _ mem)
    cases target with
    | none =>
      refine dialog fun o mem => ?_
      rcases List.mem_append.mp mem with mem | mem
      · rcases List.mem_append.mp mem with old | new
        · exact .inl (listed old)
        · exact .inr (List.mem_singleton.mp new)
      · exact .inl (running mem)
    | some i =>
      have replaced {o : Nat} (mem : o ∈ s.profiles.set i s.nextObject) :
          o ∈ s.held ∨ o = s.nextObject :=
        (List.mem_or_eq_of_mem_set mem).imp_left listed
      dsimp only
      split
      · refine Owned.applyProfileToRunning (dialog fun o mem => ?_) ?_
        · rcases List.mem_append.mp mem with mem | mem
          · exact replaced mem
          · exact .inr (List.mem_singleton.mp mem)
        · exact owned.alloc_held own (.inr rfl)
      · refine dialog fun o mem => ?_
        rcases List.mem_append.mp mem with mem | mem
        · exact replaced mem
        · exact .inl (running mem)
  · exact owned

theorem Owned.edit {np : Profile} (owned : Owned s) : Owned (s.edit np) := by
  simp only [Page.edit]
  split
  · rename_i e edited
    split
    · rename_i allowed
      have own : ∀ x ∈ np.tokens, s.owns x = true := by
        intro x mem
        have held := List.all_eq_true.mp (Bool.and_eq_true_iff.mp allowed).2 x mem
        rcases List.mem_append.mp (of_decide_eq_true held) with old | fresh
        · exact owned.dialog e edited x old
        · exact owned.attaching x fresh
      have changed : Owned { s with editor := some { e with profile := np } } := by
        refine ⟨owned.objects, owned.drives, ?_, owned.attaching⟩
        rintro _ ⟨⟩
        exact own
      exact changed.attached _
    · exact owned
  · exact owned

theorem Owned.openEditor {target : Option Nat} (owned : Owned s) : Owned (s.openEditor target) := by
  refine ⟨owned.objects, owned.drives, ?_, owned.attaching⟩
  rintro _ ⟨⟩ x mem
  dsimp only at mem
  split at mem
  · rename_i o listed
    obtain ⟨i, -, at_⟩ := Option.bind_eq_some_iff.mp listed
    have listed : o ∈ s.profiles := List.mem_of_getElem? at_
    exact owned.objects o (List.mem_append_left _ (List.mem_append_left _ listed)) x mem
  · cases mem

theorem Owned.coreStop (owned : Owned s) (a : CoreAnswer) : Owned (s.coreStop a) := by
  simp only [Page.coreStop]
  split
  · exact owned
  refine Owned.sweep ⟨fun o held => ?_, fun x mem => absurd mem List.not_mem_nil, owned.dialog,
    owned.attaching⟩
  simp only [Page.held, Option.toList_none, List.append_nil, List.mem_append] at held
  refine owned.objects o ?_
  simp only [Page.held, List.mem_append]
  exact held.imp_left .inl

theorem Owned.bootBegin (owned : Owned s) (i : Nat) (a : CoreAnswer) : Owned (s.bootBegin i a) := by
  have profiles : (s.coreStop a).profiles = s.profiles := by
    simp only [Page.coreStop]
    split <;> rfl
  have boots : (s.coreStop a).boots = s.boots := by
    simp only [Page.coreStop]
    split <;> rfl
  have stopped := owned.coreStop a
  simp only [Page.bootBegin]
  split
  · exact owned
  rename_i o listed
  refine stopped.rehold fun o' mem => stopped.objects o' ?_
  simp only [List.map_append, List.mem_append, List.map_cons, List.map_nil,
    List.mem_singleton] at mem
  simp only [Page.held, boots, List.mem_append]
  rcases mem with held | booting | rfl
  · exact .inl held
  · exact .inr booting
  · exact .inl (.inl (profiles ▸ List.mem_of_getElem? listed))

theorem Owned.bootFinish (owned : Owned s) (k : Nat) (a : CoreAnswer) :
    Owned (s.bootFinish k a) := by
  simp only [Page.bootFinish]
  split
  · exact owned
  rename_i o i begun
  have booting : o ∈ s.boots.map Prod.fst :=
    List.mem_map.mpr ⟨(o, i), List.mem_of_getElem? begun, rfl⟩
  have fewer {b : Nat} (mem : b ∈ (s.boots.eraseIdx k).map Prod.fst) : b ∈ s.held := by
    obtain ⟨pair, erased, rfl⟩ := List.mem_map.mp mem
    exact List.mem_append_right _
      (List.mem_map.mpr ⟨pair, List.mem_of_mem_eraseIdx erased, rfl⟩)
  have own := owned.objects o (List.mem_append_right _ booting)
  split
  · refine owned.rehold fun o' mem => owned.objects o' ?_
    rcases List.mem_append.mp mem with held | erased
    · exact List.mem_append_left _ held
    · exact fewer erased
  · have mounted := Page.owns_profile.mp own
    refine Owned.sweep ⟨fun o' mem => owned.objects o' ?_, ?_, owned.dialog, owned.attaching⟩
    · simp only [Page.held, Option.toList_some, List.mem_append, List.mem_singleton] at mem
      rcases mem with (listed | rfl) | erased
      · exact List.mem_append_left _ (List.mem_append_left _ listed)
      · exact List.mem_append_right _ booting
      · exact fewer erased
    · exact Page.owns_mounted.mpr ⟨mounted.1, mounted.2.1, mounted.2.2.1⟩

theorem Owned.delete (owned : Owned s) (i : Nat) : Owned (s.delete i) := by
  simp only [Page.delete]
  split
  · exact owned
  refine owned.rehold fun o mem => owned.objects o ?_
  simp only [Page.held, List.mem_append] at mem ⊢
  exact mem.imp_left (Or.imp_left List.mem_of_mem_eraseIdx)

theorem Owned.importProfile {stored : Bool} (owned : Owned s)
    (own : ∀ x ∈ p.tokens, s.owns x = true) : Owned (s.importProfile p stored) := by
  have joined {saved : List Profile} :
      Owned { s.alloc p with profiles := s.profiles ++ [s.nextObject], saved } := by
    refine (owned.alloc own).rehold fun o mem => owned.alloc_held own ?_
    simp only [List.mem_append, List.mem_singleton] at mem
    simp only [Page.held, List.mem_append]
    rcases mem with ((listed | new) | running) | booting
    · exact .inl (.inl (.inl listed))
    · exact .inr new
    · exact .inl (.inl (.inr running))
    · exact .inl (.inr booting)
  simp only [Page.importProfile]
  split
  · exact joined.attached _
  · exact joined.attached _

/-! ## Runs -/

/-- One step within the discipline. -/
theorem Owned.step {event : Event} (owned : Owned s) (kept : s.keepsTokens event = true)
    (next : s.step event = some t) : Owned t := by
  cases event with
  | register file => exact Option.some.inj next ▸ owned.register kept
  | abandon token =>
    simp only [Page.step] at next
    split at next <;> cases next
    exact (owned.attached [token]).unregister token.id
  | setCd path a =>
    simp only [Page.step] at next
    split at next
    · rename_i fresh
      cases next
      refine (owned.attached _).setCd fun x token => ?_
      rw [token] at fresh
      exact owned.attaching x (by simpa using fresh)
    · cases next
  | setFloppy b path =>
    simp only [Page.step] at next
    split at next
    · rename_i staged
      cases next
      exact owned.setFloppy fun x token => absurd token (by simp [Option.isNone_iff_eq_none.mp staged])
    · cases next
  | openEditor target => exact Option.some.inj next ▸ owned.openEditor
  | edit np => exact Option.some.inj next ▸ owned.edit
  | save a => exact Option.some.inj next ▸ owned.save
  | close =>
    have closed : Owned { s with editor := none } :=
      ⟨owned.objects, owned.drives, fun _ edited => absurd edited (by simp), owned.attaching⟩
    exact Option.some.inj next ▸ closed.sweep
  | bootBegin i a => exact Option.some.inj next ▸ owned.bootBegin i a
  | bootFinish k a => exact Option.some.inj next ▸ owned.bootFinish k a
  | stopMachine a =>
    refine Option.some.inj next ▸ ?_
    have stopped := owned.coreStop a
    exact ⟨stopped.objects, stopped.drives, stopped.dialog, stopped.attaching⟩
  | coreStop a => exact Option.some.inj next ▸ owned.coreStop a
  | setPaused paused =>
    refine Option.some.inj next ▸ ?_
    simp only [Page.setPaused]
    split
    · exact owned
    · exact ⟨owned.objects, owned.drives, owned.dialog, owned.attaching⟩
  | delete i => exact Option.some.inj next ▸ owned.delete i
  | importProfile p stored =>
    exact Option.some.inj next ▸ owned.importProfile (List.all_eq_true.mp kept)
  | reload => exact Option.some.inj next ▸ Owned.session s.saved

/-- In every run within the discipline, over any number of page sessions, every stored token that
is accepted reaches the disk that it was issued for. -/
theorem tokensResolve_of_run {saved : List Profile}
    (run : RunOk Page.step (fun s event => s.keepsTokens event = true) (.session saved) s) :
    s.TokensResolve :=
  (run.invariant (Owned.session saved) Owned.step).tokensResolve

/-! ## A session after another -/

def DiskFile.first : DiskFile := ⟨1, "disk one.img", by decide⟩

def DiskFile.second : DiskFile := ⟨2, "two.img", by decide⟩

/-- A system on a hard disk, which a later session finds in the store. -/
def saveFirst : List Event :=
  [.register .first, .openEditor none,
    .edit ⟨false, .empty, .empty, .empty, [.browser ⟨0, "disk_one.img", 1⟩]⟩, .save .willing, .close]

theorem tokensResolve_saveFirst : ∃ s : Page,
    exec Page.step (.session []) saveFirst = some s ∧ s.tokens = [⟨0, "disk_one.img", 1⟩] ∧
      s.TokensResolve := by
  have done : ((execOk Page.step Page.keepsTokens (.session []) saveFirst).any
      fun s => s.tokens = [⟨0, "disk_one.img", 1⟩]) = true := by decide +kernel
  obtain ⟨s, runs, held⟩ := (Option.any_eq_true ..).mp done
  exact ⟨s, exec_of_execOk runs, of_decide_eq_true held,
    tokensResolve_of_run (RunOk.of_execOk (fun _ _ => id) runs)⟩

/-- The next session gives the slot to the first disk that is attached, whatever the store holds. -/
theorem not_tokensResolve_second : ¬ ∀ (events : List Event) (s : Page),
    exec Page.step (.session []) events = some s → s.TokensResolve := by
  intro always
  have done : ((exec Page.step (.session []) (saveFirst ++ [.reload, .register .second])).any
      fun s => ⟨0, "disk_one.img", 1⟩ ∈ s.tokens && (s.disks 0).any (·.disk = 2)) = true := by
    decide +kernel
  obtain ⟨s, runs, both⟩ := (Option.any_eq_true ..).mp done
  obtain ⟨stored, taken⟩ := Bool.and_eq_true_iff.mp both
  obtain ⟨file, inSlot, isSecond⟩ := (Option.any_eq_true ..).mp taken
  obtain ⟨file', reached, same⟩ := always _ s runs _ (of_decide_eq_true stored)
    (Option.isSome_iff_exists.mpr ⟨file, inSlot⟩)
  cases reached.symm.trans inSlot
  have isSecond : file.disk = 2 := of_decide_eq_true isSecond
  rw [isSecond] at same
  exact absurd same (by decide)

end PCemWeb.Web
