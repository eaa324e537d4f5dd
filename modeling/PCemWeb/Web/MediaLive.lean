import PCemWeb.Web.Media
import PCemWeb.Lib.Run

/-!
# Live media

A sweep spares what a profile or a drive names. The hard disks of a running machine stay open
until it stops, while a saved edit makes another profile the running one, so `MediaLive` holds in
the sessions that `keeps` describes: an edit of the running system keeps the tokens of its open
hard disks, a boot or a swap opens slots under their own names, a swap is not refused by the core,
and no failed header read gives back an open slot. `Live` says by which path each open slot is
named.
-/

namespace PCemWeb.Web

open PCemWeb.Lib

/-! ## The property and the discipline -/

/-- Every slot that a machine has open is registered. -/
def Page.MediaLive (s : Page) : Prop :=
  s.core.state ≠ .idle → ∀ id, id ∈ s.core.hdds ∨ s.core.cd = some id → (s.disks id).isSome

/-- The token of a path, if its slot is taken, names the disk in it. -/
def Page.names (s : Page) : Path → Bool
  | .browser t => (s.disks t.id).all fun file => t.name = file.pathName
  | _ => true

/-- The path is the token of the slot. -/
def Page.tokenOf (s : Page) (id : Nat) (p : Path) : Bool :=
  (s.disks id).any fun file => p.text = some (.inr (id, file.pathName))

/-- The core takes the call and the path names what it opens, or it had no CD. -/
def Page.swapKept (s : Page) (path : Path) (a : CoreAnswer) : Bool :=
  if a.granted then !a.opens || s.names path else s.core.cd = none

/-- The paths that a boot opens name the disks in their slots. -/
def Page.bootNames (s : Page) (p : Profile) (a : CoreAnswer) : Bool :=
  (((List.range p.hdd.length).filter a.takes).all fun k => p.hdd[k]?.all s.names) &&
    (!(p.cdEnabled && a.opens) || s.names p.cd)

/-- An edit that is saved while its system runs keeps the open hard disks. -/
def Page.editKept (s : Page) (np : Profile) (a : CoreAnswer) : Bool :=
  (s.core.hdds.all fun id => np.hdd.any (s.tokenOf id)) &&
    (np.cd.text = s.mounted.cd.text || s.swapKept np.cd a)

/-- The discipline that keeps live media registered. -/
def Page.keeps (s : Page) : Event → Bool
  | .save a =>
    match s.editor with
    | some ⟨some i, np, false⟩ =>
      s.runningIndex ≠ some i || s.core.state = .idle || s.editKept np a
    | _ => true
  | .setCd path a => s.core.state = .idle || s.swapKept path a
  | .bootFinish k a =>
    (s.boots[k]?).all fun b => (s.coreStart (s.objects b.1) a).isNone || s.bootNames (s.objects b.1) a
  | .abandon t => s.core.state = .idle || (t.id ∉ s.core.hdds && s.core.cd ≠ some t.id)
  | _ => true

/-! ## The invariant -/

/-- Each open hard disk is named by the running profile and the open CD by its drive, and objects
are allocated in order. -/
structure Live (s : Page) : Prop where
  hdds : s.core.state ≠ .idle → ∀ id ∈ s.core.hdds, ∃ o, s.runningProfile = some o ∧
    ∃ p ∈ (s.objects o).hdd, s.tokenOf id p = true
  cd : s.core.state ≠ .idle → ∀ id, s.core.cd = some id → s.tokenOf id s.mounted.cd = true
  running : ∀ o, s.runningProfile = some o → o < s.nextObject
  profiles : ∀ o ∈ s.profiles, o < s.nextObject
  boots : ∀ b ∈ s.boots, b.1 < s.nextObject

variable {s t : Page} {id : Nat} {path : Path} {a : CoreAnswer}

theorem Page.isSome_of_tokenOf (token : s.tokenOf id path = true) : (s.disks id).isSome := by
  obtain ⟨file, inUse, -⟩ := (Option.any_eq_true ..).mp token
  exact Option.isSome_iff_exists.mpr ⟨file, inUse⟩

theorem Live.mediaLive (live : Live s) : s.MediaLive := by
  rintro running id (hdd | cd)
  · obtain ⟨o, -, p, -, token⟩ := live.hdds running id hdd
    exact Page.isSome_of_tokenOf token
  · exact Page.isSome_of_tokenOf (live.cd running id cd)

/-- An idle core has nothing open. -/
theorem Live.of_idle (idle : s.core.state = .idle) (running : ∀ o, s.runningProfile = some o →
    o < s.nextObject) (profiles : ∀ o ∈ s.profiles, o < s.nextObject)
    (boots : ∀ b ∈ s.boots, b.1 < s.nextObject) : Live s where
  hdds := absurd idle
  cd := absurd idle
  running := running
  profiles := profiles
  boots := boots

/-- A new page session. -/
theorem Live.session (saved : List Profile) : Live (.session saved) where
  hdds := absurd rfl
  cd := absurd rfl
  running o runs := absurd runs (by simp [Page.session])
  profiles o mem := List.mem_range.mp mem
  boots b mem := absurd mem (List.not_mem_nil)

/-- What the path of an opened slot says. -/
theorem Page.tokenOf_of_openSlot (names : s.names path = true) (opened : s.openSlot path = some id) :
    s.tokenOf id path = true := by
  obtain ⟨token, some_, open_⟩ := Option.bind_eq_some_iff.mp opened
  split at open_ <;> cases open_
  rename_i inUse
  cases path <;> cases some_
  obtain ⟨file, taken⟩ := Option.isSome_iff_exists.mp inUse
  simp only [Page.names, taken, Option.all_some, decide_eq_true_eq] at names
  simp [Page.tokenOf, taken, Path.text, Token.text, names]

/-! ## Sweeps -/

/-- A slot whose token is referenced survives a sweep. -/
theorem Page.tokenOf_sweep (token : s.tokenOf id path = true) (named : path ∈ s.referencedPaths) :
    s.sweepOrphanDisks.tokenOf id path = true := by
  obtain ⟨file, taken, same⟩ := (Option.any_eq_true ..).mp token
  have kept : s.sweepOrphanDisks.disks id = some file := by
    simp only [Page.sweepOrphanDisks, taken, Option.filter_some]
    exact if_pos (List.any_eq_true.mpr ⟨path, named, same⟩)
  exact (Option.any_eq_true ..).mpr ⟨file, kept, same⟩

/-- A sweep keeps live media. -/
theorem Live.sweep (live : Live s) : Live s.sweepOrphanDisks where
  hdds running id open_ := by
    obtain ⟨o, runs, p, inProfile, token⟩ := live.hdds running id open_
    refine ⟨o, runs, p, inProfile, Page.tokenOf_sweep token ?_⟩
    have named : p ∈ (s.objects o).paths := by simp [Profile.paths, inProfile]
    simp only [Page.referencedPaths, List.mem_append, List.mem_flatMap, runs, Option.toList_some,
      List.mem_singleton]
    exact .inl (.inr ⟨o, rfl, named⟩)
  cd running id open_ := by
    have named : s.mounted.cd ∈ s.referencedPaths := by simp [Page.referencedPaths]
    exact Page.tokenOf_sweep (live.cd running id open_) named
  running := live.running
  profiles := live.profiles
  boots := live.boots

/-! ## Live swaps -/

/-- A swap changes the running profile outside its hard disks. -/
theorem Page.updateRunning_eq {f : Profile → Profile} (hdd : ∀ p, (f p).hdd = p.hdd) :
    ∃ objects saved, s.updateRunning f = { s with objects, saved } ∧
      ∀ o, (objects o).hdd = (s.objects o).hdd := by
  simp only [Page.updateRunning]
  split
  · exact ⟨s.objects, s.saved, rfl, fun _ => rfl⟩
  · rename_i o _
    have same (o' : Nat) :
        (Function.update s.objects o (f (s.objects o)) o').hdd = (s.objects o').hdd := by
      rcases eq_or_ne o' o with rfl | other
      · rw [Function.update_self, hdd]
      · rw [Function.update_of_ne other]
    split
    · exact ⟨_, _, rfl, same⟩
    · exact ⟨_, s.saved, rfl, same⟩

theorem Live.updateRunning {f : Profile → Profile} (live : Live s) (hdd : ∀ p, (f p).hdd = p.hdd) :
    Live (s.updateRunning f) := by
  obtain ⟨objects, saved, eq, same⟩ := Page.updateRunning_eq (s := s) hdd
  rw [eq]
  refine ⟨fun running id open_ => ?_, live.cd, live.running, live.profiles, live.boots⟩
  obtain ⟨o, runs, p, inProfile, token⟩ := live.hdds running id open_
  exact ⟨o, runs, p, (same o).symm ▸ inProfile, token⟩

theorem Live.setCd (live : Live s) (kept : s.core.state = .idle ∨ s.swapKept path a = true) :
    Live (s.setCd path a) := by
  simp only [Page.setCd]
  split
  · exact live
  rename_i running
  have kept := kept.resolve_left running
  simp only [Page.swapKept] at kept
  refine (Live.updateRunning ?_ ?_).sweep
  rotate_left
  · exact fun _ => rfl
  have state : (s.coreCd path a).state = s.core.state := by
    simp only [Page.coreCd]
    split <;> rfl
  have hdds : (s.coreCd path a).hdds = s.core.hdds := by
    simp only [Page.coreCd]
    split <;> rfl
  refine ⟨fun _ id open_ => live.hdds running id (hdds ▸ open_), fun _ id open_ => ?_, live.running,
    live.profiles, live.boots⟩
  simp only [Page.coreCd] at open_
  split at open_
  · rename_i granted
    rw [if_pos granted] at kept
    dsimp only at open_
    split at open_
    · rename_i opens
      rw [opens] at kept
      exact Page.tokenOf_of_openSlot kept open_
    · cases open_
  · rename_i refused
    rw [if_neg refused] at kept
    cases (of_decide_eq_true kept).symm.trans open_

theorem Live.setFloppy {b : Bool} (live : Live s) : Live (s.setFloppy b path) := by
  simp only [Page.setFloppy]
  split
  · exact live
  split
  · refine (Live.updateRunning ?_ ?_).sweep
    · exact ⟨live.hdds, live.cd, live.running, live.profiles, live.boots⟩
    · exact fun _ => rfl
  · refine (Live.updateRunning ?_ ?_).sweep
    · exact ⟨live.hdds, live.cd, live.running, live.profiles, live.boots⟩
    · exact fun _ => rfl

/-! ## Steps that leave the machine alone -/

/-- A step that keeps the core, the drives and the running profile's hard disks, and the tokens of
the open slots. -/
theorem Live.frame (live : Live s) (core : t.core = s.core) (mounted : t.mounted = s.mounted)
    (runs : t.runningProfile = s.runningProfile)
    (same : ∀ o, s.runningProfile = some o → (t.objects o).hdd = (s.objects o).hdd)
    (token : ∀ id p, s.core.state ≠ .idle → id ∈ s.core.hdds ∨ s.core.cd = some id →
      s.tokenOf id p = true → t.tokenOf id p = true)
    (more : s.nextObject ≤ t.nextObject) (profiles : ∀ o ∈ t.profiles, o < t.nextObject)
    (boots : ∀ b ∈ t.boots, b.1 < t.nextObject) : Live t where
  hdds running id open_ := by
    rw [core] at running open_
    obtain ⟨o, running', p, inProfile, token'⟩ := live.hdds running id open_
    exact ⟨o, runs.trans running', p, (same o running').symm ▸ inProfile,
      token id p running (.inl open_) token'⟩
  cd running id open_ := by
    rw [core] at running open_
    rw [mounted]
    exact token id _ running (.inr open_) (live.cd running id open_)
  running o running' := Nat.lt_of_lt_of_le (live.running o (runs ▸ running')) more
  profiles := profiles
  boots := boots

/-- The slot that a registration takes was free. -/
theorem Page.isNone_of_freeSlot (free : s.freeSlot = some id) : (s.disks id).isNone := by
  have found := List.find?_some free
  exact found

theorem Live.register (live : Live s) (file : DiskFile) : Live (s.register file) := by
  simp only [Page.register]
  split
  · exact live
  rename_i slot free
  refine live.frame rfl rfl rfl (fun _ _ => rfl) ?_ (Nat.le_refl _) live.profiles live.boots
  intro id p _ _ token
  have taken : id ≠ slot := by
    rintro rfl
    have isNone := Page.isNone_of_freeSlot free
    have isSome := Page.isSome_of_tokenOf token
    simp_all
  simp only [Page.tokenOf, Function.update_of_ne taken]
  exact token

theorem Live.attached (live : Live s) (tokens : List Token) : Live (s.attached tokens) :=
  live.frame rfl rfl rfl (fun _ _ => rfl) (fun _ _ _ _ token => token) (Nat.le_refl _) live.profiles
    live.boots

theorem Live.unregister {slot : Nat} (live : Live s)
    (kept : s.core.state = .idle ∨ slot ∉ s.core.hdds ∧ s.core.cd ≠ some slot) :
    Live (s.unregister slot) := by
  refine live.frame rfl rfl rfl (fun _ _ => rfl) ?_ (Nat.le_refl _) live.profiles live.boots
  intro id p running open_ token
  obtain ⟨noHdd, noCd⟩ := kept.resolve_left running
  have other : id ≠ slot := by
    rintro rfl
    exact open_.elim noHdd noCd
  simp only [Page.tokenOf, Page.unregister, Function.update_of_ne other]
  exact token

/-- A new object is no profile that was there before. -/
theorem Live.alloc (live : Live s) (p : Profile) : Live (s.alloc p) := by
  have older {o : Nat} (bound : o < s.nextObject) : o < s.nextObject + 1 := by omega
  refine live.frame rfl rfl rfl ?_ (fun _ _ _ _ token => token) (Nat.le_succ _)
    (fun o mem => older (live.profiles o mem)) fun b mem => older (live.boots b mem)
  intro o runs
  have other : o ≠ s.nextObject := Nat.ne_of_lt (live.running o runs)
  simp only [Page.alloc, Function.update_of_ne other]

/-- The list of profiles may change to any objects that exist. -/
theorem Live.relist {profiles : List Nat} {saved : List Profile} {runningIndex : Option Nat}
    {editor : Option Editor} {boots : List (Nat × Nat)} (live : Live s)
    (listed : ∀ o ∈ profiles, o < s.nextObject) (booting : ∀ b ∈ boots, b.1 < s.nextObject) :
    Live { s with profiles, saved, runningIndex, editor, boots } :=
  live.frame rfl rfl rfl (fun _ _ => rfl) (fun _ _ _ _ token => token) (Nat.le_refl _) listed booting

theorem Live.importProfile (live : Live s) (p : Profile) (stored : Bool) :
    Live (s.importProfile p stored) := by
  have listed : ∀ o ∈ s.profiles ++ [s.nextObject], o < (s.alloc p).nextObject := by
    intro o mem
    rcases List.mem_append.mp mem with old | new
    · exact (live.alloc p).profiles o old
    · rw [List.mem_singleton.mp new]
      exact Nat.lt_succ_self _
  simp only [Page.importProfile]
  split
  · exact ((live.alloc p).relist listed (live.alloc p).boots).attached _ |>.relist listed
      (live.alloc p).boots
  · exact ((live.alloc p).relist listed (live.alloc p).boots).attached _

theorem Live.delete (live : Live s) (i : Nat) : Live (s.delete i) := by
  simp only [Page.delete]
  split
  · exact live
  · exact live.relist (fun o mem => live.profiles o (List.mem_of_mem_eraseIdx mem)) live.boots

/-! ## Stops and boots -/

/-- After `_stateChanged(IDLE)` nothing is open. -/
theorem Live.becameIdle (live : Live s) (idle : s.core.state = .idle) : Live s.becameIdle := by
  refine Live.sweep (Live.of_idle idle ?_ live.profiles live.boots)
  exact fun _ runs => absurd runs (by simp)

theorem Live.coreStop (live : Live s) (a : CoreAnswer) : Live (s.coreStop a) := by
  simp only [Page.coreStop]
  split
  · exact live
  · exact Live.becameIdle (Live.of_idle rfl live.running live.profiles live.boots) rfl

theorem Page.coreStop_profiles : (s.coreStop a).profiles = s.profiles := by
  simp only [Page.coreStop]
  split <;> rfl

theorem Page.coreStop_nextObject : (s.coreStop a).nextObject = s.nextObject := by
  simp only [Page.coreStop]
  split <;> rfl

theorem Page.coreStop_boots : (s.coreStop a).boots = s.boots := by
  simp only [Page.coreStop]
  split <;> rfl

theorem Live.bootBegin (live : Live s) (i : Nat) (a : CoreAnswer) : Live (s.bootBegin i a) := by
  simp only [Page.bootBegin]
  split
  · exact live
  rename_i o listed
  refine (live.coreStop a).relist (live.coreStop a).profiles ?_
  intro b mem
  rw [Page.coreStop_nextObject]
  rcases List.mem_append.mp mem with old | new
  · exact live.boots b old
  · rw [List.mem_singleton.mp new]
    exact live.profiles o (List.mem_of_getElem? listed)

/-- What a started core has open is named by the profile. -/
theorem Page.tokenOf_of_openHdds {p : Profile} (names : s.bootNames p a = true)
    (open_ : id ∈ s.openHdds p a) : ∃ path ∈ p.hdd, s.tokenOf id path = true := by
  obtain ⟨k, taken, opened⟩ := List.mem_filterMap.mp open_
  obtain ⟨path, at_, slot⟩ := Option.bind_eq_some_iff.mp opened
  have named := List.all_eq_true.mp (Bool.and_eq_true_iff.mp names).1 k taken
  simp only [at_, Option.all_some] at named
  exact ⟨path, List.mem_of_getElem? at_, Page.tokenOf_of_openSlot named slot⟩

theorem Live.bootFinish {k : Nat} (live : Live s) (kept : s.keeps (.bootFinish k a) = true) :
    Live (s.bootFinish k a) := by
  simp only [Page.bootFinish]
  split
  · exact live
  rename_i o i begun
  have mem : (o, i) ∈ s.boots := List.mem_of_getElem? begun
  have boots : ∀ b ∈ s.boots.eraseIdx k, b.1 < s.nextObject :=
    fun b mem => live.boots b (List.mem_of_mem_eraseIdx mem)
  split
  · exact live.relist live.profiles boots
  rename_i core started
  have started : s.coreStart (s.objects o) a = some core := started
  have names : s.bootNames (s.objects o) a = true := by
    simpa only [Page.keeps, begun, Option.all_some, started, Option.isNone_some, Bool.false_or]
      using kept
  simp only [Page.coreStart] at started
  split at started <;> cases started
  refine Live.sweep ⟨fun _ id open_ => ?_, fun _ id open_ => ?_, ?_, live.profiles, boots⟩
  · obtain ⟨path, inProfile, token⟩ := Page.tokenOf_of_openHdds names open_
    exact ⟨o, rfl, path, inProfile, token⟩
  · dsimp only at open_
    split at open_
    · rename_i cdOpens
      have named := (Bool.and_eq_true_iff.mp names).2
      rw [cdOpens] at named
      exact Page.tokenOf_of_openSlot named open_
    · cases open_
  · rintro _ ⟨⟩
    exact live.boots _ mem

theorem Live.setPaused (live : Live s) (paused : Bool) : Live (s.setPaused paused) := by
  simp only [Page.setPaused]
  split
  · exact live
  · rename_i running
    exact ⟨fun _ => live.hdds running, fun _ => live.cd running, live.running, live.profiles,
      live.boots⟩

/-! ## Saves -/

/-- The swaps that a save makes, once the edited profile is the running one. -/
theorem Live.applyProfileToRunning {o : Nat} (live : Live { s with runningProfile := some o })
    (cd : (s.objects o).cd.text = s.mounted.cd.text ∨ s.swapKept (s.objects o).cd a = true) :
    Live (s.applyProfileToRunning o a) := by
  simp only [Page.applyProfileToRunning]
  have withCd : Live
      (if (s.objects o).cd.text ≠ s.mounted.cd.text then
        ({ s with runningProfile := some o } : Page).setCd (s.objects o).cd a
      else { s with runningProfile := some o }) := by
    split
    · rename_i changed
      exact live.setCd (.inr (cd.resolve_left changed))
    · exact live
  have withFda (p : Path) : ∀ {s : Page}, Live s →
      Live (if p.text ≠ s.mounted.fda.text then s.setFloppy false p else s) := by
    intro s live
    split
    · exact live.setFloppy
    · exact live
  have withFdb (p : Path) : ∀ {s : Page}, Live s →
      Live (if p.text ≠ s.mounted.fdb.text then s.setFloppy true p else s) := by
    intro s live
    split
    · exact live.setFloppy
    · exact live
  exact withFdb _ (withFda _ withCd)

/-- The edited profile, once it is the running one, names what its predecessor had open. -/
theorem Live.replaced {np : Profile} {target : Option Nat} {profiles : List Nat}
    {saved : List Profile} (live : Live s)
    (listed : ∀ o ∈ profiles, o < s.nextObject + 1)
    (hdds : s.core.state ≠ .idle → ∀ id ∈ s.core.hdds, ∃ p ∈ np.hdd, s.tokenOf id p = true) :
    Live { s.alloc np with
      editor := some ⟨target, np, true⟩, profiles, saved, runningProfile := some s.nextObject } where
  hdds running id open_ := by
    obtain ⟨p, inProfile, token⟩ := hdds running id open_
    refine ⟨s.nextObject, rfl, p, ?_, token⟩
    simpa only [Page.alloc, Function.update_self] using inProfile
  cd := live.cd
  running := by
    rintro _ ⟨⟩
    exact Nat.lt_succ_self _
  profiles := listed
  boots b mem := Nat.lt_succ_of_lt (live.boots b mem)

theorem Live.save (live : Live s) (kept : s.keeps (.save a) = true) : Live (s.save a) := by
  have older {o : Nat} (bound : o < s.nextObject) : o < s.nextObject + 1 := by omega
  have booting : ∀ b ∈ s.boots, b.1 < s.nextObject + 1 := fun b mem => older (live.boots b mem)
  simp only [Page.save]
  split
  · rename_i target np edited
    cases target with
    | none =>
      refine (live.alloc np).relist (fun o mem => ?_) booting
      rcases List.mem_append.mp mem with old | new
      · exact older (live.profiles o old)
      · rw [List.mem_singleton.mp new]
        exact Nat.lt_succ_self _
    | some i =>
      have listed : ∀ o ∈ s.profiles.set i s.nextObject, o < s.nextObject + 1 := by
        intro o mem
        rcases List.mem_or_eq_of_mem_set mem with old | new
        · exact older (live.profiles o old)
        · rw [new]
          exact Nat.lt_succ_self _
      dsimp only
      split
      · rename_i running
        obtain ⟨runs, notIdle⟩ := Bool.and_eq_true_iff.mp running
        have runs : s.runningIndex = some i := of_decide_eq_true runs
        have notIdle : s.core.state ≠ .idle := of_decide_eq_true notIdle
        have keptEdit : s.editKept np a = true := by
          simpa [Page.keeps, edited, runs, notIdle] using kept
        obtain ⟨hdds, cd⟩ := Bool.and_eq_true_iff.mp keptEdit
        have named : ∀ id ∈ s.core.hdds, ∃ p ∈ np.hdd, s.tokenOf id p = true :=
          fun id open_ => List.any_eq_true.mp (List.all_eq_true.mp hdds id open_)
        have object : (s.alloc np).objects s.nextObject = np := Function.update_self ..
        have cd : np.cd.text = s.mounted.cd.text ∨ s.swapKept np.cd a = true := by
          simpa only [Bool.or_eq_true, decide_eq_true_eq] using cd
        refine Live.applyProfileToRunning (live.replaced listed fun _ => named) ?_
        simp only [Page.persist, object]
        exact cd
      · exact (live.alloc np).relist listed booting
  · exact live

/-! ## Runs -/

/-- One step within the discipline. -/
theorem Live.step {event : Event} (live : Live s) (kept : s.keeps event = true)
    (next : s.step event = some t) : Live t := by
  cases event with
  | register file => exact Option.some.inj next ▸ live.register file
  | abandon token =>
    simp only [Page.step] at next
    split at next <;> cases next
    have kept : s.core.state = .idle ∨ token.id ∉ s.core.hdds ∧ s.core.cd ≠ some token.id := by
      simpa [Page.keeps] using kept
    exact (live.attached [token]).unregister kept
  | setCd path a =>
    simp only [Page.step] at next
    split at next <;> cases next
    have kept : s.core.state = .idle ∨ s.swapKept path a = true := by
      simpa [Page.keeps] using kept
    exact (live.attached _).setCd kept
  | setFloppy b path =>
    simp only [Page.step] at next
    split at next <;> cases next
    exact live.setFloppy
  | openEditor target =>
    exact Option.some.inj next ▸ live.relist live.profiles live.boots
  | edit np =>
    refine Option.some.inj next ▸ ?_
    simp only [Page.edit]
    split
    · split
      · exact (live.relist live.profiles live.boots).attached _
      · exact live
    · exact live
  | save a => exact Option.some.inj next ▸ live.save kept
  | close => exact Option.some.inj next ▸ (live.relist live.profiles live.boots).sweep
  | bootBegin i a => exact Option.some.inj next ▸ live.bootBegin i a
  | bootFinish k a => exact Option.some.inj next ▸ live.bootFinish kept
  | stopMachine a =>
    refine Option.some.inj next ▸ ?_
    exact (live.coreStop a).relist (live.coreStop a).profiles (live.coreStop a).boots
  | coreStop a => exact Option.some.inj next ▸ live.coreStop a
  | setPaused paused => exact Option.some.inj next ▸ live.setPaused paused
  | delete i => exact Option.some.inj next ▸ live.delete i
  | importProfile p stored => exact Option.some.inj next ▸ live.importProfile p stored
  | reload => exact Option.some.inj next ▸ Live.session s.saved

/-- In every run within the discipline, from the profiles of any store, the slots that the machine
has open are registered. -/
theorem mediaLive_of_run {saved : List Profile}
    (run : RunOk Page.step (fun s event => s.keeps event = true) (.session saved) s) :
    s.MediaLive :=
  (run.invariant (Live.session saved) Live.step).mediaLive

/-! ## Two sessions -/

def DiskFile.dos : DiskFile := ⟨1, "dos.img", by decide⟩

def DiskFile.win : DiskFile := ⟨2, "win.img", by decide⟩

/-- A system with one hard disk. -/
def Profile.withHdd (t : Token) : Profile := ⟨false, .empty, .empty, .empty, [.browser t]⟩

/-- A hard disk is attached, saved as a system and booted. -/
def bootDos : List Event :=
  [.register .dos, .openEditor none, .edit (.withHdd ⟨0, "dos.img", 1⟩), .save .willing, .close,
    .bootBegin 0 .willing, .bootFinish 0 .willing]

/-- Its disk is then replaced in the dialog while the machine runs. -/
def replaceDos : List Event :=
  [.register .win, .openEditor (some 0), .edit (.withHdd ⟨1, "win.img", 2⟩), .save .willing, .close]

theorem mediaLive_bootDos : ∃ s : Page,
    exec Page.step (.session []) bootDos = some s ∧ s.core.hdds = [0] ∧ s.MediaLive := by
  have done : ((execOk Page.step Page.keeps (.session []) bootDos).any
      fun s => s.core.hdds = [0]) = true := by decide +kernel
  obtain ⟨s, runs, open_⟩ := (Option.any_eq_true ..).mp done
  exact ⟨s, exec_of_execOk runs, of_decide_eq_true open_,
    mediaLive_of_run (RunOk.of_execOk (fun _ _ => id) runs)⟩

/-- Closing the dialog frees the slot of a hard disk that the machine still has open. -/
theorem not_mediaLive_replaceDos : ¬ ∀ (events : List Event) (s : Page),
    exec Page.step (.session []) events = some s → s.MediaLive := by
  intro always
  have done : ((exec Page.step (.session []) (bootDos ++ replaceDos)).any fun s =>
      s.core.state = .running && 0 ∈ s.core.hdds && (s.disks 0).isNone) = true := by
    decide +kernel
  obtain ⟨s, runs, open_⟩ := (Option.any_eq_true ..).mp done
  simp only [Bool.and_eq_true, decide_eq_true_eq] at open_
  obtain ⟨⟨running, hdd⟩, gone⟩ := open_
  have registered := always _ s runs (by simp [running]) 0 (.inl hdd)
  simp [Option.isNone_iff_eq_none.mp gone] at registered

end PCemWeb.Web
