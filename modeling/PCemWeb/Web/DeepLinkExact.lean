import PCemWeb.Web.DeepLink
import Mathlib.Data.List.Nodup
import Mathlib.Data.List.Perm.Subperm

/-!
# What deep links resolve to

When a link is servable, each slot has one job, or two that stage the same file, and what a job
leaves does not depend on the others. Two orders in which the jobs end differ in the ids that
`registerDiskUrl` gives out.
-/

namespace PCemWeb.Web

variable {w : Hosting} {l : Link}

/-! ## The jobs of a link -/

namespace Link

variable {f : Slot → Option String} {slot : Slot} {url : String}

theorem mem_jobsOf {job : Job} : job ∈ jobsOf f ↔ job.slot ∈ slots ∧ f job.slot = some job.url := by
  unfold jobsOf
  rw [List.mem_filterMap]
  constructor
  · intro ⟨slot, listed, found⟩
    obtain ⟨url, named, rfl⟩ := Option.map_eq_some_iff.mp found
    exact ⟨listed, named⟩
  · intro ⟨listed, named⟩
    exact ⟨job.slot, listed, by rw [named]; rfl⟩

/-- A list of jobs has a slot once. -/
theorem slot_jobsOf : ((jobsOf f).map Job.slot).Nodup := by
  have once : slots.Nodup := by decide
  refine List.Nodup.sublist ?_ once
  have either (slot : Slot) : ((f slot).map (Job.mk slot)).map Job.slot =
      Option.guard (fun slot => (f slot).isSome) slot := by
    cases named : f slot with
    | none => rw [Option.guard_eq_none_iff.mpr (by rw [named]; rfl)]; rfl
    | some url => rw [Option.guard_eq_some_iff.mpr ⟨rfl, by rw [named]; rfl⟩]; rfl
  unfold jobsOf
  rw [List.map_filterMap, funext either, List.filterMap_eq_filter]
  exact List.filter_sublist

theorem index_jobsOf {j k : Nat} {a b : String} (first : (jobsOf f)[j]? = some ⟨slot, a⟩)
    (second : (jobsOf f)[k]? = some ⟨slot, b⟩) : j = k := by
  have slots : ((jobsOf f).map Job.slot)[j]? = ((jobsOf f).map Job.slot)[k]? := by
    rw [List.getElem?_map, List.getElem?_map, first, second]
    rfl
  refine (List.getElem?_inj ?_ slot_jobsOf).mp slots
  rw [List.length_map]
  exact (List.getElem?_eq_some_iff.mp first).1

theorem url_jobsOf {j : Nat} (at_ : (jobsOf f)[j]? = some ⟨slot, url⟩) : f slot = some url :=
  (mem_jobsOf.mp (List.mem_of_getElem? at_)).2

theorem manifest_listed (named : l.manifestUrl w slot = some url) : slot ∈ slots := by
  unfold slots
  rw [List.mem_append, List.mem_append, List.mem_map, List.mem_map]
  cases slot with
  | hdd i =>
    have inside : i < 7 := by
      by_contra outside
      rw [manifestUrl, if_neg outside] at named
      cases named
    exact .inl (.inl ⟨i, List.mem_range.mpr inside, rfl⟩)
  | fdd i =>
    have inside : i < 2 := by
      by_contra outside
      rw [manifestUrl, if_neg outside] at named
      cases named
    exact .inl (.inr ⟨i, List.mem_range.mpr inside, rfl⟩)
  | cdrom => exact .inr (List.mem_singleton.mpr rfl)

theorem query_listed (named : l.queryUrl w slot = some url) : slot ∈ slots := by
  unfold queryUrl at named
  split at named
  · decide
  · decide
  · decide
  · decide
  · decide
  · cases named

theorem mem_jobs {job : Job} : job ∈ l.jobs w ↔
    l.manifestUrl w job.slot = some job.url ∨ l.queryUrl w job.slot = some job.url := by
  unfold jobs
  rw [List.mem_append, mem_jobsOf, mem_jobsOf]
  constructor
  · rintro (⟨-, named⟩ | ⟨-, named⟩)
    · exact .inl named
    · exact .inr named
  · rintro (named | named)
    · exact .inl ⟨manifest_listed named, named⟩
    · exact .inr ⟨query_listed named, named⟩

theorem exists_job (wanted : l.wantedUrl w slot = some url) :
    ∃ j : Nat, (l.jobs w)[j]? = some ⟨slot, url⟩ := by
  apply List.mem_iff_getElem?.mp
  rw [mem_jobs]
  rcases Option.or_eq_some_iff.mp wanted with fromQuery | ⟨-, fromManifest⟩
  · exact .inr fromQuery
  · exact .inl fromManifest

theorem no_job {j : Nat} (unwanted : l.wantedUrl w slot = none) :
    (l.jobs w)[j]? ≠ some ⟨slot, url⟩ := by
  intro at_
  obtain ⟨query, manifest⟩ := Option.or_eq_none_iff.mp unwanted
  rcases mem_jobs.mp (List.mem_of_getElem? at_) with named | named
  · rw [manifest] at named
    cases named
  · rw [query] at named
    cases named

/-- A slot that has no two URLs has the wanted one. -/
theorem wanted_of_job {j : Nat} (once : l.queryUrl w slot = none ∨ l.manifestUrl w slot = none)
    (at_ : (l.jobs w)[j]? = some ⟨slot, url⟩) : l.wantedUrl w slot = some url := by
  unfold wantedUrl
  rcases mem_jobs.mp (List.mem_of_getElem? at_) with named | named
  · rcases once with none_ | none_
    · rw [none_]
      exact named
    · cases none_.symm.trans named
  · rw [named]
    rfl

theorem job_unique {j k : Nat} {a b : String}
    (once : l.queryUrl w slot = none ∨ l.manifestUrl w slot = none)
    (first : (l.jobs w)[j]? = some ⟨slot, a⟩) (second : (l.jobs w)[k]? = some ⟨slot, b⟩) :
    j = k := by
  unfold jobs at first second
  rw [List.getElem?_append] at first second
  have apart (p : Prop) {i i' : Nat} {c d : String}
      (manifest : (jobsOf (l.manifestUrl w))[i]? = some ⟨slot, c⟩)
      (query : (jobsOf (l.queryUrl w))[i']? = some ⟨slot, d⟩) : p := by
    have fromManifest := url_jobsOf manifest
    have fromQuery := url_jobsOf query
    rcases once with none_ | none_
    · rw [none_] at fromQuery
      cases fromQuery
    · rw [none_] at fromManifest
      cases fromManifest
  split at first
  · split at second
    · exact index_jobsOf first second
    · exact apart _ first second
  · split at second
    · exact apart _ second first
    · have same := index_jobsOf first second
      omega

/-- Two jobs for one floppy drive stage one name. -/
theorem Servable.staged_name (servable : l.Servable w) {i j k : Nat} {a b : String}
    (first : (l.jobs w)[j]? = some ⟨.fdd i, a⟩) (second : (l.jobs w)[k]? = some ⟨.fdd i, b⟩) :
    w.stagedName a = w.stagedName b := by
  have ofUrls {f : Slot → Option String} (one : f (.fdd i) = some a) (other : f (.fdd i) = some b) :
      w.stagedName a = w.stagedName b := by
    cases one.symm.trans other
    rfl
  rcases mem_jobs.mp (List.mem_of_getElem? first) with manifest | query
  · rcases mem_jobs.mp (List.mem_of_getElem? second) with manifest' | query'
    · exact ofUrls manifest manifest'
    · exact (servable.sameName i b a query' manifest).symm
  · rcases mem_jobs.mp (List.mem_of_getElem? second) with manifest' | query'
    · exact servable.sameName i a b query manifest'
    · exact ofUrls query query'

theorem Servable.once_hdd (servable : l.Servable w) (i : Nat) :
    l.queryUrl w (.hdd i) = none ∨ l.manifestUrl w (.hdd i) = none :=
  servable.once _ rfl

theorem Servable.once_cdrom (servable : l.Servable w) :
    l.queryUrl w .cdrom = none ∨ l.manifestUrl w .cdrom = none :=
  servable.once _ rfl

end Link

/-! ## What each step does -/

namespace LinkState

variable {s t u : LinkState} {i j n : Nat} {url : String}

theorem of_lazyDisk (ran : s.lazyDisk w j i url = some t) : s.phase j = .waiting ∧
    t = (({ s with disks := s.disks ++ [j] } : LinkState).setHdd i
      ⟨.browser (s.token j url), s.pickGeometry w i url, none⟩).setPhase j .done := by
  unfold lazyDisk registerDiskUrl at ran
  split at ran
  · rename_i waiting
    split at ran
    · cases ran
      exact ⟨waiting, rfl⟩
    · cases ran
  · cases ran

theorem of_stageUrl (ran : s.stageUrl w j i url = some t) :
    (s.phase j = .waiting ∧ t = ({ s with
      files := Function.update s.files (w.stagedName url) (some j) } : LinkState).setPhase j
        (.reading 0)) ∨
    ((∃ n, s.phase j = .reading n) ∧
      t = (s.setFdd i (.staged (w.stagedName url))).setPhase j .done) := by
  unfold stageUrl at ran
  split at ran
  · rename_i waiting
    cases ran
    exact .inl ⟨waiting, rfl⟩
  · rename_i n reading
    split at ran
    · cases ran
      exact .inr ⟨⟨n, reading⟩, rfl⟩
    · cases ran
  · cases ran

theorem of_lazyCd (ran : s.lazyCd j url = some t) :
    (s.phase j = .waiting ∧ t = ({ s with disks := s.disks ++ [j] } : LinkState).setPhase j
      (.preloading (s.token j url))) ∨
    ∃ token, s.phase j = .preloading token ∧
      t = (s.setCdrom (.browser token)).setPhase j .done := by
  unfold lazyCd registerDiskUrl at ran
  split at ran
  · rename_i waiting
    split at ran
    · cases ran
      exact .inl ⟨waiting, rfl⟩
    · cases ran
  · rename_i token preloading
    cases ran
    exact .inr ⟨token, preloading, rfl⟩
  · cases ran

theorem of_chunk (ran : s.chunk w j n url = some t) : ∃ k m, s.phase j = .reading k ∧
    t = s.setPhase j (.reading m) := by
  unfold chunk at ran
  split at ran
  · rename_i k reading
    split at ran
    · cases ran
      exact ⟨k, _, reading, rfl⟩
    · cases ran
  · cases ran

@[simp] theorem phase_setPhase (phase : Phase) :
    (s.setPhase j phase).phase = Function.update s.phase j phase := rfl

@[simp] theorem profile_setPhase (phase : Phase) : (s.setPhase j phase).profile = s.profile := rfl

@[simp] theorem disks_setPhase (phase : Phase) : (s.setPhase j phase).disks = s.disks := rfl

@[simp] theorem files_setPhase (phase : Phase) : (s.setPhase j phase).files = s.files := rfl

/-! ## Invariants -/

/-- The token that a job's disk was registered under. -/
structure Issued (s : LinkState) (j : Nat) (url : String) (token : Token) : Prop where
  disks : s.disks[token.id]? = some j
  name : token.name = sanitise (lastPart url)
  disk : token.disk = j

variable (w l)

/-- The jobs of disks and CDs are registered once each, as soon as they have begun. -/
structure DiskInv (s : LinkState) : Prop where
  nodup : s.disks.Nodup
  listed : ∀ j, j ∈ s.disks ↔ ∃ slot url, (l.jobs w)[j]? = some ⟨slot, url⟩ ∧
    slot.lazily = true ∧ s.phase j ≠ .waiting

structure HddInv (s : LinkState) : Prop where
  attached : ∀ j i url, (l.jobs w)[j]? = some ⟨.hdd i, url⟩ → s.phase j ≠ .waiting →
    ∃ token, s.profile.hdd i = some ⟨.browser token, l.geometryOf w i url, none⟩ ∧
      s.Issued j url token
  kept : ∀ i, (∀ j url, (l.jobs w)[j]? = some ⟨.hdd i, url⟩ → s.phase j = .waiting) →
    s.profile.hdd i = l.profile.hdd i

structure CdInv (s : LinkState) : Prop where
  preloading : ∀ j url token, (l.jobs w)[j]? = some ⟨.cdrom, url⟩ →
    s.phase j = .preloading token → s.Issued j url token
  mounted : ∀ j url, (l.jobs w)[j]? = some ⟨.cdrom, url⟩ → s.phase j = .done →
    ∃ token, s.profile.cdrom = { l.profile.cdrom with
      enabled := true, image := .browser token,
      channel := some (l.profile.cdrom.channel.getD 2) } ∧ s.Issued j url token
  kept : (∀ j url, (l.jobs w)[j]? = some ⟨.cdrom, url⟩ → s.phase j ≠ .done) →
    s.profile.cdrom = l.profile.cdrom

structure FddInv (s : LinkState) : Prop where
  entry : ∀ i, ∃ image, s.profile.fdd i = { l.profile.fdd i with image }
  staged : ∀ j i url, (l.jobs w)[j]? = some ⟨.fdd i, url⟩ → s.phase j = .done →
    s.profile.fdd i = { l.profile.fdd i with image := .staged (w.stagedName url) }
  kept : ∀ i, (∀ j url, (l.jobs w)[j]? = some ⟨.fdd i, url⟩ → s.phase j ≠ .done) →
    s.profile.fdd i = l.profile.fdd i
  file : ∀ j i url, (l.jobs w)[j]? = some ⟨.fdd i, url⟩ → s.phase j ≠ .waiting →
    ∃ k i' url', s.files (w.stagedName url) = some k ∧
      (l.jobs w)[k]? = some ⟨.fdd i', url'⟩ ∧ w.stagedName url' = w.stagedName url

structure LinkInv (s : LinkState) : Prop where
  disk : DiskInv w l s
  hdd : HddInv w l s
  cdrom : CdInv w l s
  fdd : FddInv w l s

variable {w l}

theorem linkInv_start : LinkInv w l (start l) where
  disk := ⟨List.nodup_nil, fun _ =>
    ⟨fun listed => absurd listed List.not_mem_nil, fun ⟨_, _, _, _, begun⟩ => absurd rfl begun⟩⟩
  hdd := ⟨fun _ _ _ _ begun => absurd rfl begun, fun _ _ => rfl⟩
  cdrom := ⟨fun _ _ _ _ => Phase.noConfusion, fun _ _ _ => Phase.noConfusion, fun _ => rfl⟩
  fdd := ⟨fun i => ⟨(l.profile.fdd i).image, rfl⟩, fun _ _ _ _ => Phase.noConfusion,
    fun _ _ => rfl, fun _ _ _ _ begun => absurd rfl begun⟩

theorem Issued.mono {token : Token} (issued : s.Issued j url token)
    (disks : ∀ (id : Nat) k, s.disks[id]? = some k → t.disks[id]? = some k) : t.Issued j url token
      :=
  ⟨disks _ _ issued.disks, issued.name, issued.disk⟩

theorem HddInv.frame (inv : HddInv w l s) (hdd : t.profile.hdd = s.profile.hdd)
    (disks : ∀ (id : Nat) k, s.disks[id]? = some k → t.disks[id]? = some k)
    (phase : ∀ k i url, (l.jobs w)[k]? = some ⟨.hdd i, url⟩ → t.phase k = s.phase k) :
    HddInv w l t where
  attached k i url at_ begun := by
    rw [phase k i url at_] at begun
    obtain ⟨token, entry, issued⟩ := inv.attached k i url at_ begun
    exact ⟨token, hdd ▸ entry, issued.mono disks⟩
  kept i waiting := by
    rw [hdd]
    refine inv.kept i fun k url at_ => ?_
    rw [← phase k i url at_]
    exact waiting k url at_

theorem CdInv.frame (inv : CdInv w l s) (cdrom : t.profile.cdrom = s.profile.cdrom)
    (disks : ∀ (id : Nat) k, s.disks[id]? = some k → t.disks[id]? = some k)
    (phase : ∀ k url, (l.jobs w)[k]? = some ⟨.cdrom, url⟩ → t.phase k = s.phase k) :
    CdInv w l t where
  preloading k url token at_ begun := by
    rw [phase k url at_] at begun
    exact (inv.preloading k url token at_ begun).mono disks
  mounted k url at_ done := by
    rw [phase k url at_] at done
    obtain ⟨token, entry, issued⟩ := inv.mounted k url at_ done
    exact ⟨token, cdrom.trans entry, issued.mono disks⟩
  kept undone := by
    rw [cdrom]
    refine inv.kept fun k url at_ => ?_
    rw [← phase k url at_]
    exact undone k url at_

/-- A step that stages nothing and ends no floppy keeps the floppies. -/
theorem FddInv.frame (inv : FddInv w l s) (fdd : t.profile.fdd = s.profile.fdd)
    (files : t.files = s.files)
    (phase : ∀ k i url, (l.jobs w)[k]? = some ⟨.fdd i, url⟩ →
      (t.phase k = .done ↔ s.phase k = .done) ∧ (t.phase k = .waiting ↔ s.phase k = .waiting)) :
    FddInv w l t where
  entry i := by
    rw [fdd]
    exact inv.entry i
  staged k i url at_ done := by
    rw [fdd]
    exact inv.staged k i url at_ ((phase k i url at_).1.mp done)
  kept i undone := by
    rw [fdd]
    exact inv.kept i fun k url at_ done => undone k url at_ ((phase k i url at_).1.mpr done)
  file k i url at_ begun := by
    rw [files]
    exact inv.file k i url at_ fun waiting => begun ((phase k i url at_).2.mpr waiting)

/-- A step of a disk or CD keeps the floppies. -/
theorem FddInv.keep (inv : FddInv w l s) (fdd : t.profile.fdd = s.profile.fdd)
    (files : t.files = s.files)
    (phase : ∀ k i url, (l.jobs w)[k]? = some ⟨.fdd i, url⟩ → t.phase k = s.phase k) :
    FddInv w l t :=
  inv.frame fdd files fun k i url at_ => by
    rw [phase k i url at_]
    exact ⟨Iff.rfl, Iff.rfl⟩

theorem DiskInv.frame (inv : DiskInv w l s) (disks : t.disks = s.disks)
    (phase : ∀ k slot url, (l.jobs w)[k]? = some ⟨slot, url⟩ → slot.lazily = true →
      (t.phase k = .waiting ↔ s.phase k = .waiting)) : DiskInv w l t where
  nodup := by
    rw [disks]
    exact inv.nodup
  listed k := by
    rw [disks, inv.listed k]
    refine exists_congr fun slot => exists_congr fun url => and_congr_right fun at_ =>
      and_congr_right fun lazily => ?_
    rw [Ne, Ne, phase k slot url at_ lazily]

/-- A job registers its disk when it begins. -/
theorem DiskInv.register {slot : Slot} {phase : Phase} (inv : DiskInv w l s)
    (at_ : (l.jobs w)[j]? = some ⟨slot, url⟩) (lazily : slot.lazily = true)
    (waiting : s.phase j = .waiting) (begun : phase ≠ .waiting) (disks : t.disks = s.disks ++ [j])
    (phases : t.phase = Function.update s.phase j phase) : DiskInv w l t := by
  have fresh : j ∉ s.disks := fun listed => by
    obtain ⟨_, _, _, _, started⟩ := (inv.listed j).mp listed
    exact started waiting
  constructor
  · rw [disks, ← List.concat_eq_append]
    exact List.Nodup.concat fresh inv.nodup
  · intro k
    rw [disks, List.mem_append, List.mem_singleton, phases]
    rcases eq_or_ne k j with rfl | apart
    · rw [Function.update_self]
      exact ⟨fun _ => ⟨slot, url, at_, lazily, begun⟩, fun _ => .inr rfl⟩
    · rw [Function.update_of_ne apart, ← inv.listed k]
      exact ⟨fun either => either.resolve_right apart, .inl⟩

theorem issued_token (disks : t.disks = s.disks ++ [j]) : t.Issued j url (s.token j url) :=
  ⟨by rw [disks]; exact List.getElem?_concat_length, rfl, rfl⟩

theorem disks_concat (disks : t.disks = s.disks ++ [j]) (id : Nat) (k : Nat)
    (found : s.disks[id]? = some k) : t.disks[id]? = some k := by
  rw [disks, List.getElem?_append_left (List.getElem?_eq_some_iff.mp found).1]
  exact found

/-- A job of another slot keeps its phase. -/
theorem phase_apart {slot slot' : Slot} {url' : String} {k : Nat} {phase : Phase}
    (at_ : (l.jobs w)[j]? = some ⟨slot, url⟩) (other : (l.jobs w)[k]? = some ⟨slot', url'⟩)
    (apart : slot' ≠ slot) : Function.update s.phase j phase k = s.phase k := by
  refine Function.update_of_ne ?_ ..
  rintro rfl
  cases at_.symm.trans other
  exact apart rfl

/-- The geometry that a hard disk is given, when its slot is still as the manifest has it. -/
theorem pickGeometry_eq (servable : l.Servable w) (at_ : (l.jobs w)[j]? = some ⟨.hdd i, url⟩)
    (kept : s.profile.hdd i = l.profile.hdd i) :
    s.pickGeometry w i url = l.geometryOf w i url := by
  unfold pickGeometry Link.geometryOf
  rw [kept]
  cases entry : l.profile.hdd i with
  | none => rfl
  | some h =>
    dsimp only
    by_cases formatted : h.geometry.cylinders ≠ 0
    · rw [if_pos formatted]
      by_cases own : l.queryUrl w (.hdd i) = none ∨ h.file = .empty
      · rw [if_pos ⟨formatted, own⟩]
      · rw [if_neg fun both => own both.2]
        obtain ⟨named, foreign⟩ := not_or.mp own
        have manifest := (servable.once_hdd i).resolve_left named
        have query : l.queryUrl w (.hdd i) = some url := by
          refine (Link.mem_jobs.mp (List.mem_of_getElem? at_)).resolve_left fun listed => ?_
          cases manifest.symm.trans listed
        exact servable.ownGeometry i url h query entry foreign formatted
    · rw [if_neg formatted, if_neg fun both => formatted both.1]

/-! ## Steps keep them -/

theorem linkInv_lazyDisk (servable : l.Servable w) (inv : LinkInv w l s)
    (at_ : (l.jobs w)[j]? = some ⟨.hdd i, url⟩) (ran : s.lazyDisk w j i url = some t) :
    LinkInv w l t := by
  obtain ⟨waiting, rfl⟩ := of_lazyDisk ran
  have only {k : Nat} {url' : String} (other : (l.jobs w)[k]? = some ⟨.hdd i, url'⟩) : k = j :=
    Link.job_unique (servable.once_hdd i) other at_
  have before : s.profile.hdd i = l.profile.hdd i := inv.hdd.kept i fun k url' other => by
    rw [only other]
    exact waiting
  refine ⟨?_, ⟨?_, ?_⟩, ?_, ?_⟩
  · exact inv.disk.register at_ rfl waiting (fun (same : Phase.done = .waiting) => Phase.noConfusion
      same)
      rfl rfl
  · intro k i' url' other begun
    show ∃ token, Function.update s.profile.hdd i _ i' = _ ∧ _
    rcases eq_or_ne k j with rfl | apart
    · cases at_.symm.trans other
      rw [Function.update_self, ← pickGeometry_eq servable at_ before]
      exact ⟨_, rfl, issued_token rfl⟩
    · have elsewhere : i' ≠ i := by
        rintro rfl
        exact apart (only other)
      rw [Function.update_of_ne elsewhere]
      have started : s.phase k ≠ .waiting := by
        rw [phase_setPhase, Function.update_of_ne apart] at begun
        exact begun
      obtain ⟨token, entry, issued⟩ := inv.hdd.attached k i' url' other started
      exact ⟨token, entry, issued.mono (disks_concat rfl)⟩
  · intro i' idle
    show Function.update s.profile.hdd i _ i' = _
    have elsewhere : i' ≠ i := by
      rintro rfl
      have done := idle j url at_
      rw [phase_setPhase, Function.update_self] at done
      cases done
    rw [Function.update_of_ne elsewhere]
    refine inv.hdd.kept i' fun k url' other => ?_
    have still := idle k url' other
    exact (phase_apart at_ other fun same => elsewhere (Slot.hdd.inj same)).symm.trans still
  · exact inv.cdrom.frame rfl (disks_concat rfl)
      fun k url' other => phase_apart at_ other Slot.noConfusion
  · exact inv.fdd.keep rfl rfl fun k i' url' other => phase_apart at_ other Slot.noConfusion

theorem linkInv_lazyCd (servable : l.Servable w) (inv : LinkInv w l s)
    (at_ : (l.jobs w)[j]? = some ⟨.cdrom, url⟩) (ran : s.lazyCd j url = some t) :
    LinkInv w l t := by
  have only {k : Nat} {url' : String} (other : (l.jobs w)[k]? = some ⟨.cdrom, url'⟩) : k = j :=
    Link.job_unique servable.once_cdrom other at_
  rcases of_lazyCd ran with ⟨waiting, rfl⟩ | ⟨token, preloading, rfl⟩
  · have before : s.profile.cdrom = l.profile.cdrom := inv.cdrom.kept fun k url' other done => by
      rw [only other, waiting] at done
      cases done
    refine ⟨?_, ?_, ⟨?_, ?_, fun _ => before⟩, ?_⟩
    · exact inv.disk.register at_ rfl waiting
        (fun (same : Phase.preloading _ = .waiting) => Phase.noConfusion same) rfl rfl
    · exact inv.hdd.frame rfl (disks_concat rfl)
        fun k i url' other => phase_apart at_ other Slot.noConfusion
    · intro k url' token other preloading
      cases only other
      cases at_.symm.trans other
      rw [phase_setPhase, Function.update_self] at preloading
      cases preloading
      exact issued_token rfl
    · intro k url' other done
      cases only other
      rw [phase_setPhase, Function.update_self] at done
      cases done
    · exact inv.fdd.keep rfl rfl fun k i url' other => phase_apart at_ other Slot.noConfusion
  · have before : s.profile.cdrom = l.profile.cdrom := inv.cdrom.kept fun k url' other done => by
      rw [only other, preloading] at done
      cases done
    have issued := inv.cdrom.preloading j url token at_ preloading
    refine ⟨?_, ?_, ⟨?_, ?_, ?_⟩, ?_⟩
    · refine inv.disk.frame rfl fun k slot url' other lazily => ?_
      rw [phase_setPhase]
      rcases eq_or_ne k j with rfl | apart
      · rw [Function.update_self, preloading]
        exact ⟨Phase.noConfusion, Phase.noConfusion⟩
      · rw [Function.update_of_ne apart]
        rfl
    · exact inv.hdd.frame rfl (fun _ _ found => found)
        fun k i url' other => phase_apart at_ other Slot.noConfusion
    · intro k url' token' other preloading'
      cases only other
      rw [phase_setPhase, Function.update_self] at preloading'
      cases preloading'
    · intro k url' other done
      cases only other
      cases at_.symm.trans other
      refine ⟨token, ?_, issued.disks, issued.name, issued.disk⟩
      show ({ s.profile.cdrom with
        enabled := true, image := _, channel := some (s.profile.cdrom.channel.getD 2) } : Cdrom) = _
      rw [before]
    · intro undone
      have done := undone j url at_
      rw [phase_setPhase, Function.update_self] at done
      exact absurd rfl done
    · exact inv.fdd.keep rfl rfl fun k i url' other => phase_apart at_ other Slot.noConfusion

/-- A step of a floppy keeps the hard disks and the CD. -/
theorem LinkInv.of_floppy (inv : LinkInv w l s) (at_ : (l.jobs w)[j]? = some ⟨.fdd i, url⟩)
    (hdd : t.profile.hdd = s.profile.hdd) (cdrom : t.profile.cdrom = s.profile.cdrom)
    (disks : t.disks = s.disks) (phases : ∀ k ≠ j, t.phase k = s.phase k) (fdd : FddInv w l t) :
    LinkInv w l t := by
  have apart {k : Nat} {slot : Slot} {url' : String} (other : (l.jobs w)[k]? = some ⟨slot, url'⟩)
      (lazily : slot.lazily = true) : t.phase k = s.phase k := by
    apply phases
    rintro rfl
    cases at_.symm.trans other
    cases lazily
  have same (id k : Nat) (found : s.disks[id]? = some k) : t.disks[id]? = some k := by
    rw [disks]
    exact found
  refine ⟨?_, ?_, ?_, fdd⟩
  · exact inv.disk.frame disks fun k slot url' other lazily => by rw [apart other lazily]
  · exact inv.hdd.frame hdd same fun k i url' other => apart other rfl
  · exact inv.cdrom.frame cdrom same fun k url' other => apart other rfl

/-- The node of a staged name is from then on that of the job that opened it last. -/
theorem fddInv_open (inv : FddInv w l s) (at_ : (l.jobs w)[j]? = some ⟨.fdd i, url⟩)
    (waiting : s.phase j = .waiting) (profile : t.profile = s.profile)
    (files : t.files = Function.update s.files (w.stagedName url) (some j))
    (phases : t.phase = Function.update s.phase j (.reading 0)) : FddInv w l t := by
  have done_iff (k : Nat) : t.phase k = .done ↔ s.phase k = .done := by
    rw [phases]
    rcases eq_or_ne k j with rfl | apart
    · rw [Function.update_self, waiting]
      exact ⟨Phase.noConfusion, Phase.noConfusion⟩
    · rw [Function.update_of_ne apart]
  constructor
  · intro i'
    rw [profile]
    exact inv.entry i'
  · intro k i' url' other done
    rw [profile]
    exact inv.staged k i' url' other ((done_iff k).mp done)
  · intro i' undone
    rw [profile]
    exact inv.kept i' fun k url' other done => undone k url' other ((done_iff k).mpr done)
  · intro k i' url' other begun
    rw [files]
    rcases eq_or_ne (w.stagedName url') (w.stagedName url) with same | elsewhere
    · rw [same, Function.update_self]
      exact ⟨j, i, url, rfl, at_, rfl⟩
    · rw [Function.update_of_ne elsewhere]
      have apart : k ≠ j := by
        rintro rfl
        cases at_.symm.trans other
        exact elsewhere rfl
      rw [phases, Function.update_of_ne apart] at begun
      exact inv.file k i' url' other begun

/-- A drive gets the name that all jobs for it stage. -/
theorem fddInv_finish (servable : l.Servable w) (inv : FddInv w l s)
    (at_ : (l.jobs w)[j]? = some ⟨.fdd i, url⟩) (reading : s.phase j = .reading n)
    (fdd : t.profile.fdd = Function.update s.profile.fdd i
      { s.profile.fdd i with image := .staged (w.stagedName url) })
    (files : t.files = s.files) (phases : t.phase = Function.update s.phase j .done) :
    FddInv w l t := by
  obtain ⟨image, entry⟩ := inv.entry i
  have ended : t.profile.fdd i =
      { l.profile.fdd i with image := .staged (w.stagedName url) } := by
    rw [fdd, Function.update_self, entry]
  have others {i' : Nat} (elsewhere : i' ≠ i) : t.profile.fdd i' = s.profile.fdd i' := by
    rw [fdd, Function.update_of_ne elsewhere]
  have still {k i' : Nat} {url' : String} (other : (l.jobs w)[k]? = some ⟨.fdd i', url'⟩)
      (elsewhere : i' ≠ i) : t.phase k = s.phase k := by
    rw [phases]
    exact phase_apart at_ other fun same => elsewhere (Slot.fdd.inj same)
  constructor
  · intro i'
    rcases eq_or_ne i' i with rfl | elsewhere
    · exact ⟨_, ended⟩
    · rw [others elsewhere]
      exact inv.entry i'
  · intro k i' url' other done
    rcases eq_or_ne i' i with rfl | elsewhere
    · rw [servable.staged_name other at_]
      exact ended
    · rw [others elsewhere]
      exact inv.staged k i' url' other ((still other elsewhere).symm.trans done)
  · intro i' undone
    have elsewhere : i' ≠ i := by
      rintro rfl
      have unended := undone j url at_
      rw [phases, Function.update_self] at unended
      exact unended rfl
    rw [others elsewhere]
    exact inv.kept i' fun k url' other done =>
      undone k url' other ((still other elsewhere).trans done)
  · intro k i' url' other begun
    rw [files]
    refine inv.file k i' url' other fun idle => begun ?_
    have apart : k ≠ j := by
      rintro rfl
      cases reading.symm.trans idle
    rw [phases, Function.update_of_ne apart]
    exact idle

theorem linkInv_stageUrl (servable : l.Servable w) (inv : LinkInv w l s)
    (at_ : (l.jobs w)[j]? = some ⟨.fdd i, url⟩) (ran : s.stageUrl w j i url = some t) :
    LinkInv w l t := by
  rcases of_stageUrl ran with ⟨waiting, rfl⟩ | ⟨⟨n, reading⟩, rfl⟩
  · refine inv.of_floppy at_ ?_ ?_ ?_ (fun k apart => Function.update_of_ne apart ..) ?_
    · rw [profile_setPhase]
    · rw [profile_setPhase]
    · rw [disks_setPhase]
    · apply fddInv_open inv.fdd at_ waiting
      · rw [profile_setPhase]
      · rw [files_setPhase]
      · rw [phase_setPhase]
  · refine inv.of_floppy at_ ?_ ?_ ?_ (fun k apart => Function.update_of_ne apart ..) ?_
    · rw [profile_setPhase, setFdd]
    · rw [profile_setPhase, setFdd]
    · rw [disks_setPhase, setFdd]
    · apply fddInv_finish servable inv.fdd at_ reading
      · rw [profile_setPhase, setFdd]
      · rw [files_setPhase, setFdd]
      · rw [phase_setPhase, setFdd]

theorem linkInv_chunk (inv : LinkInv w l s) (at_ : (l.jobs w)[j]? = some ⟨.fdd i, url⟩)
    (ran : s.chunk w j n url = some t) : LinkInv w l t := by
  obtain ⟨k, m, reading, rfl⟩ := of_chunk ran
  have same (p : Phase) (settled : ∀ m, p ≠ .reading m) (k' : Nat) :
      Function.update s.phase j (.reading m) k' = p ↔ s.phase k' = p := by
    rcases eq_or_ne k' j with rfl | apart
    · rw [Function.update_self, reading]
      exact ⟨fun here => absurd here.symm (settled m), fun here => absurd here.symm (settled k)⟩
    · rw [Function.update_of_ne apart]
  refine inv.of_floppy at_ rfl rfl rfl (fun k apart => Function.update_of_ne apart ..) ?_
  exact inv.fdd.frame rfl rfl fun k' i' url' other =>
    ⟨same .done (fun _ => Phase.noConfusion) k', same .waiting (fun _ => Phase.noConfusion) k'⟩

theorem linkInv_step (servable : l.Servable w) (inv : LinkInv w l s) {event : LinkEvent}
    (next : step w (l.jobs w) s event = some t) : LinkInv w l t := by
  cases event with
  | proceed j =>
    rw [step] at next
    split at next
    · rename_i i url at_
      exact linkInv_lazyDisk servable inv at_ next
    · rename_i i url at_
      exact linkInv_stageUrl servable inv at_ next
    · rename_i url at_
      exact linkInv_lazyCd servable inv at_ next
    · cases next
  | chunk j n =>
    rw [step] at next
    split at next
    · rename_i i url at_
      exact linkInv_chunk inv at_ next
    · cases next

theorem linkInv_of_returns (servable : l.Servable w) (returned : l.Returns w t) :
    LinkInv w l t := by
  obtain ⟨⟨events, ran⟩, -⟩ := returned
  exact Lib.exec_invariant ran linkInv_start fun inv next => linkInv_step servable inv next

end LinkState

/-! ## The profile that is returned -/

namespace Link

variable {t u : LinkState}

theorem phase_of_returns (returned : l.Returns w t) {j : Nat} {job : Job}
    (at_ : (l.jobs w)[j]? = some job) : t.phase j = .done :=
  returned.2 j (List.getElem?_eq_some_iff.mp at_).1

theorem diskUrl_of_issued {j : Nat} {slot : Slot} {url : String} {token : Token}
    (at_ : (l.jobs w)[j]? = some ⟨slot, url⟩) (issued : t.Issued j url token) :
    t.diskUrl (l.jobs w) token.id = some url := by
  rw [LinkState.diskUrl, issued.disks, Option.bind_some, at_]
  rfl

/-- The bytes under a staged name are those of every job that staged it. -/
theorem content_of_returns (servable : l.Servable w) (returned : l.Returns w t) {j i : Nat}
    {url : String} (at_ : (l.jobs w)[j]? = some ⟨.fdd i, url⟩) :
    t.content w (l.jobs w) (w.stagedName url) = some (w.data url) := by
  have inv := LinkState.linkInv_of_returns servable returned
  have begun : t.phase j ≠ .waiting := by
    rw [phase_of_returns returned at_]
    exact Phase.noConfusion
  obtain ⟨k, i', url', file, other, same⟩ := inv.fdd.file j i url at_ begun
  have data := servable.sameData i' i url' url (List.mem_of_getElem? other)
    (List.mem_of_getElem? at_) same
  rw [LinkState.content, file, Option.bind_some, other, Option.map_some, LinkState.written,
    phase_of_returns returned other]
  exact congrArg some data

theorem references_of_returns (servable : l.Servable w) (returned : l.Returns w t) {id : Nat}
    (registered : id < t.disks.length) : t.profile.References id := by
  have inv := LinkState.linkInv_of_returns servable returned
  have sole {j : Nat} {url : String} {token : Token} (issued : t.Issued j url token)
      (same : j = t.disks[id]) : token.id = id := by
    refine ((List.getElem?_inj registered inv.disk.nodup).mp ?_).symm
    rw [issued.disks, same]
    exact List.getElem?_eq_getElem registered
  obtain ⟨slot, url, at_, lazily, begun⟩ := (inv.disk.listed t.disks[id]).mp
    (List.getElem_mem registered)
  cases slot with
  | hdd i =>
    obtain ⟨token, entry, issued⟩ := inv.hdd.attached _ i url at_ begun
    exact .inl ⟨i, _, token, entry, rfl, sole issued rfl⟩
  | fdd i => exact absurd lazily Bool.false_ne_true
  | cdrom =>
    obtain ⟨token, entry, issued⟩ := inv.cdrom.mounted _ url at_ (phase_of_returns returned at_)
    exact .inr ⟨token, by rw [entry], sole issued rfl⟩

theorem resolved_of_returns (servable : l.Servable w) (returned : l.Returns w t) :
    l.Resolved w t := by
  have inv := LinkState.linkInv_of_returns servable returned
  have begun {j : Nat} {job : Job} (at_ : (l.jobs w)[j]? = some job) : t.phase j ≠ .waiting := by
    rw [phase_of_returns returned at_]
    exact Phase.noConfusion
  constructor
  · intro i url wanted
    obtain ⟨j, at_⟩ := exists_job wanted
    obtain ⟨token, entry, issued⟩ := inv.hdd.attached j i url at_ (begun at_)
    exact ⟨token, entry, diskUrl_of_issued at_ issued⟩
  · intro i url wanted
    obtain ⟨j, at_⟩ := exists_job wanted
    exact ⟨inv.fdd.staged j i url at_ (phase_of_returns returned at_),
      content_of_returns servable returned at_⟩
  · intro url wanted
    obtain ⟨j, at_⟩ := exists_job wanted
    obtain ⟨token, entry, issued⟩ := inv.cdrom.mounted j url at_ (phase_of_returns returned at_)
    exact ⟨token, entry, diskUrl_of_issued at_ issued⟩
  · exact fun i unwanted => inv.hdd.kept i fun j url at_ => absurd at_ (no_job unwanted)
  · exact fun i unwanted => inv.fdd.kept i fun j url at_ => absurd at_ (no_job unwanted)
  · exact fun unwanted => inv.cdrom.kept fun j url at_ => absurd at_ (no_job unwanted)
  · exact fun id registered => references_of_returns servable returned registered

theorem length_disks (servable : l.Servable w) (returned : l.Returns w t) :
    t.disks.length = (l.diskJobs w).length := by
  have inv := (LinkState.linkInv_of_returns servable returned).disk
  refine List.Perm.length_eq ((List.perm_ext_iff_of_nodup inv.nodup ?_).mpr fun j => ?_)
  · exact List.nodup_range.filter _
  · rw [inv.listed j, diskJobs, List.mem_filter, List.mem_range, Option.any_eq_true]
    constructor
    · intro ⟨slot, url, at_, lazily, _⟩
      exact ⟨(List.getElem?_eq_some_iff.mp at_).1, ⟨slot, url⟩, at_, lazily⟩
    · intro ⟨_, ⟨slot, url⟩, at_, lazily⟩
      refine ⟨slot, url, at_, lazily, ?_⟩
      rw [phase_of_returns returned at_]
      exact Phase.noConfusion

/-- Two lists of the same jobs differ in the positions. -/
theorem exists_renaming {xs ys : List Nat} (once : xs.Nodup) (once' : ys.Nodup)
    (same : ∀ j, j ∈ xs ↔ j ∈ ys) : ∃ f : Nat → Nat, Function.Injective f ∧
      (∀ a b j, xs[a]? = some j → ys[b]? = some j → f a = b) ∧
      ∀ a, xs.length ≤ a ∨ xs.length = 1 → f a = a := by
  have length : xs.length = ys.length :=
    ((List.perm_ext_iff_of_nodup once once').mpr same).length_eq
  have inside {a j : Nat} (at_ : xs[a]? = some j) : ys.idxOf j < ys.length :=
    List.idxOf_lt_length_iff.mpr ((same j).mp (List.mem_of_getElem? at_))
  refine ⟨fun a => (xs[a]?).elim a ys.idxOf, ?_, ?_, ?_⟩
  · intro a b equal
    dsimp only at equal
    cases first : xs[a]? with
    | none =>
      have outside := List.getElem?_eq_none_iff.mp first
      cases second : xs[b]? with
      | none =>
        rw [first, second] at equal
        exact equal
      | some k =>
        have bound := inside second
        rw [first, second, Option.elim_none, Option.elim_some] at equal
        omega
    | some j =>
      have bound := inside first
      cases second : xs[b]? with
      | none =>
        have outside := List.getElem?_eq_none_iff.mp second
        rw [first, second, Option.elim_none, Option.elim_some] at equal
        omega
      | some k =>
        rw [first, second, Option.elim_some, Option.elim_some] at equal
        have one := (List.idxOf_inj ((same j).mp (List.mem_of_getElem? first))).mp equal
        refine (List.getElem?_inj (List.getElem?_eq_some_iff.mp first).1 once).mp ?_
        rw [first, second, one]
  · intro a b j first second
    dsimp only
    rw [first, Option.elim_some]
    obtain ⟨bound, rfl⟩ := List.getElem?_eq_some_iff.mp second
    exact once'.idxOf_getElem b bound
  · intro a small
    dsimp only
    cases at_ : xs[a]? with
    | none => rfl
    | some j =>
      have bound := inside at_
      have position := (List.getElem?_eq_some_iff.mp at_).1
      rw [Option.elim_some]
      omega

theorem renamed_of_keeps (servable : l.Servable w) {f : Nat → Nat} {path : Path}
    (keeps : l.Keeps w path)
    (beyond : ∀ a, (l.diskJobs w).length ≤ a ∨ (l.diskJobs w).length = 1 → f a = a) :
    path.renamed f = path := by
  cases path with
  | empty => rfl
  | staged file => rfl
  | browser token => rw [Path.renamed, beyond _ (servable.fresh token keeps)]

/-- Two orders differ in the ids of the tokens. -/
theorem renamed_of_returns (servable : l.Servable w) (first : l.Returns w t)
    (second : l.Returns w u) : ∃ f : Nat → Nat, Function.Injective f ∧
      u.profile = t.profile.renamed f := by
  have inv := LinkState.linkInv_of_returns servable first
  have inv' := LinkState.linkInv_of_returns servable second
  have finished {j : Nat} {job : Job} (at_ : (l.jobs w)[j]? = some job) :
      t.phase j = u.phase j :=
    (phase_of_returns first at_).trans (phase_of_returns second at_).symm
  have same (j : Nat) : j ∈ t.disks ↔ j ∈ u.disks := by
    rw [inv.disk.listed, inv'.disk.listed]
    refine exists_congr fun slot => exists_congr fun url => and_congr_right fun at_ => ?_
    rw [finished at_]
  obtain ⟨f, injective, matches_, beyond⟩ := exists_renaming inv.disk.nodup inv'.disk.nodup same
  rw [length_disks servable first] at beyond
  have issued {j : Nat} {url : String} {token token' : Token} (one : t.Issued j url token)
      (other : u.Issued j url token') : token' = { token with id := f token.id } := by
    cases token'
    cases token
    obtain ⟨disks, rfl, rfl⟩ := one
    obtain ⟨disks', rfl, rfl⟩ := other
    rw [matches_ _ _ _ disks disks']
  have begun {v : LinkState} (returned : l.Returns w v) {j : Nat} {job : Job}
      (at_ : (l.jobs w)[j]? = some job) : v.phase j ≠ .waiting := by
    rw [phase_of_returns returned at_]
    exact Phase.noConfusion
  have resolved := resolved_of_returns servable first
  have resolved' := resolved_of_returns servable second
  refine ⟨f, injective, LinkProfile.ext (funext fun i => ?_) (funext fun i => ?_) ?_⟩
  · show u.profile.hdd i = (t.profile.hdd i).map _
    cases wanted : l.wantedUrl w (.hdd i) with
    | none =>
      rw [resolved.otherHdd i wanted, resolved'.otherHdd i wanted]
      cases entry : l.profile.hdd i with
      | none => rfl
      | some h =>
        rw [Option.map_some, renamed_of_keeps servable (.inl ⟨i, h, entry, rfl, wanted⟩) beyond]
    | some url =>
      obtain ⟨j, at_⟩ := exists_job wanted
      obtain ⟨token, entry, one⟩ := inv.hdd.attached j i url at_ (begun first at_)
      obtain ⟨token', entry', other⟩ := inv'.hdd.attached j i url at_ (begun second at_)
      rw [entry, entry', issued one other]
      rfl
  · show u.profile.fdd i = { t.profile.fdd i with image := (t.profile.fdd i).image.renamed f }
    cases wanted : l.wantedUrl w (.fdd i) with
    | none =>
      rw [resolved.otherFdd i wanted, resolved'.otherFdd i wanted,
        renamed_of_keeps servable (.inr (.inl ⟨i, rfl, wanted⟩)) beyond]
    | some url =>
      rw [(resolved.fdd i url wanted).1, (resolved'.fdd i url wanted).1]
      rfl
  · show u.profile.cdrom = { t.profile.cdrom with image := t.profile.cdrom.image.renamed f }
    cases wanted : l.wantedUrl w .cdrom with
    | none =>
      rw [resolved.otherCdrom wanted, resolved'.otherCdrom wanted,
        renamed_of_keeps servable (.inr (.inr ⟨rfl, wanted⟩)) beyond]
    | some url =>
      obtain ⟨j, at_⟩ := exists_job wanted
      obtain ⟨token, entry, one⟩ := inv.cdrom.mounted j url at_ (phase_of_returns first at_)
      obtain ⟨token', entry', other⟩ := inv'.cdrom.mounted j url at_ (phase_of_returns second at_)
      rw [entry, entry', issued one other]
      rfl

/-- Servable links resolve to the right profile in every order. -/
theorem orderFree_of_servable (servable : l.Servable w) : l.OrderFree w := fun _ first =>
  ⟨resolved_of_returns servable first, fun _ second => renamed_of_returns servable first second⟩

/-- A host whose URLs are absolute already and start with nine characters before the path. -/
def sampleHosting : Hosting where
  resolve url _ := url
  pathname url := String.ofList (url.toList.drop 9)
  size _ := 21377024
  data url := if url = "https://h/x/boot.img" then [1] else [2]

/-- A manifest with a disk and a CD, and a link with two floppies. -/
def sampleLink : Link where
  pageUrl := "https://h/"
  profileUrl := "https://h/p.json"
  profile :=
    { hdd := fun i => if i = 0 then some ⟨.empty, ⟨0, 0, 0⟩, some "https://h/c.img"⟩ else none
      fdd := fun _ => ⟨7, .empty, none⟩
      cdrom := ⟨false, .empty, some 2, some "https://h/d.iso"⟩ }
  disk := none
  disk2 := none
  fd := some "https://h/x/boot.img"
  fd2 := some "https://h/x/data.img"
  cd := none

theorem servable_sampleLink : sampleLink.Servable sampleHosting := by
  have disks (i : Nat) : sampleLink.queryUrl sampleHosting (.hdd i) = none := by
    match i with
    | 0 => rfl
    | 1 => rfl
    | _ + 2 => rfl
  have jobs : sampleLink.jobs sampleHosting = [⟨.hdd 0, "https://h/c.img"⟩,
      ⟨.cdrom, "https://h/d.iso"⟩, ⟨.fdd 0, "https://h/x/boot.img"⟩,
      ⟨.fdd 1, "https://h/x/data.img"⟩] := by decide
  constructor
  · intro slot lazily
    cases slot with
    | hdd i => exact .inl (disks i)
    | fdd i => cases lazily
    | cdrom => exact .inl rfl
  · intro i fromQuery fromManifest query manifest
    rw [manifestUrl] at manifest
    split at manifest
    · cases manifest
    · cases manifest
  · intro i k a b first second
    have boot : sampleHosting.stagedName "https://h/x/boot.img" = "boot.img" := by decide
    have data : sampleHosting.stagedName "https://h/x/data.img" = "data.img" := by decide
    rw [jobs] at first second
    have one : a = "https://h/x/boot.img" ∨ a = "https://h/x/data.img" := by simp at first; tauto
    have other : b = "https://h/x/boot.img" ∨ b = "https://h/x/data.img" := by simp at second; tauto
    rcases one with rfl | rfl
    · rcases other with rfl | rfl
      · exact fun _ => rfl
      · rw [boot, data]
        decide
    · rcases other with rfl | rfl
      · rw [boot, data]
        decide
      · exact fun _ => rfl
  · intro i url h query
    rw [disks i] at query
    cases query
  · rintro token (⟨i, h, entry, same, -⟩ | ⟨i, same, -⟩ | ⟨same, -⟩)
    · change (if i = 0 then some _ else none) = some h at entry
      split at entry
      · cases entry
        cases same
      · cases entry
    · cases same
    · cases same

theorem orderFree_sampleLink : sampleLink.OrderFree sampleHosting :=
  orderFree_of_servable servable_sampleLink

/-- Floppies from two folders whose URLs end in the same file name. -/
theorem not_orderFree_sameName :
    ¬Link.OrderFree sampleHosting { sampleLink with fd2 := some "https://h/y/boot.img" } := by
  intro orderFree
  have jobs : Link.jobs sampleHosting { sampleLink with fd2 := some "https://h/y/boot.img" } =
      [⟨.hdd 0, "https://h/c.img"⟩, ⟨.cdrom, "https://h/d.iso"⟩, ⟨.fdd 0, "https://h/x/boot.img"⟩,
        ⟨.fdd 1, "https://h/y/boot.img"⟩] := by decide
  have ran : (Lib.exec (LinkState.step sampleHosting
      (Link.jobs sampleHosting { sampleLink with fd2 := some "https://h/y/boot.img" }))
      (LinkState.start { sampleLink with fd2 := some "https://h/y/boot.img" })
      [.proceed 0, .proceed 1, .proceed 1, .proceed 2, .chunk 2 1, .proceed 2, .proceed 3,
        .chunk 3 1, .proceed 3]).map (fun t => (t.content sampleHosting
          (Link.jobs sampleHosting { sampleLink with fd2 := some "https://h/y/boot.img" })
          "boot.img", t.phase 0, t.phase 1, t.phase 2, t.phase 3)) =
      some (some [2], .done, .done, .done, .done) := by decide +kernel
  obtain ⟨t, reached, facts⟩ := Option.map_eq_some_iff.mp ran
  obtain ⟨bytes, zero, one, two, three⟩ := by simpa only [Prod.mk.injEq] using facts
  have returned : Link.Returns sampleHosting
      { sampleLink with fd2 := some "https://h/y/boot.img" } t := by
    refine ⟨⟨_, reached⟩, fun j inside => ?_⟩
    rw [jobs] at inside
    match j with
    | 0 => exact zero
    | 1 => exact one
    | 2 => exact two
    | 3 => exact three
  obtain ⟨-, content⟩ := (orderFree t returned).1.fdd 0 "https://h/x/boot.img" rfl
  have name : sampleHosting.stagedName "https://h/x/boot.img" = "boot.img" := by decide
  have data : sampleHosting.data "https://h/x/boot.img" = [1] := rfl
  rw [name, bytes, data] at content
  exact absurd content (by decide)

end Link

end PCemWeb.Web
