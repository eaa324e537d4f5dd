import Mathlib.Data.List.Basic
import Mathlib.Logic.Function.Basic
import Mathlib.Tactic.Common

/-!
# Media in the page

The systems manager of `ui.js`, the configure dialog of `machine-editor.js` and the browser-disk
registry of `emulator.js` with the slots of `wasm-diskio.c`. Profiles are objects: the running
profile is shared with the list until an edit replaces the entry, and a live swap changes it in
place. Awaits are steps of their own: a boot has a beginning and an end, and a disk that is being
attached waits in `attaching` for its header.

A token is the text `browser:<id>:<name>`. `Token.disk` is history: the disk that the token was
issued for, which the text does not say and no modelled function reads.
-/

namespace PCemWeb.Web

/-! ## Disks and tokens -/

/-- A file or URL behind a slot: which disk it is, and its name. -/
structure DiskFile where
  disk : Nat
  name : String
  named : name ≠ ""

/-- The characters that a token keeps. -/
def plain (c : Char) : Bool := c.isAlphanum || c = '.' || c = '_' || c = '-'

/-- `replace(/[^A-Za-z0-9._-]+/g, '_')`; the flag says that a run has begun. -/
def replaceRuns : Bool → List Char → List Char
  | _, [] => []
  | inRun, c :: cs =>
    if plain c then c :: replaceRuns false cs
    else if inRun then replaceRuns true cs
    else '_' :: replaceRuns true cs

def sanitise (name : String) : String := String.ofList (replaceRuns false name.toList)

structure Token where
  id : Nat
  name : String
  disk : Nat
  deriving DecidableEq

/-- What the text of a token says. -/
def Token.text (t : Token) : Nat × String := (t.id, t.name)

/-- A media path of a profile: empty, a file staged into the virtual file system, or a token. -/
inductive Path
  | empty
  | staged (file : String)
  | browser (t : Token)
  deriving DecidableEq

/-- What comparing two paths as strings compares. -/
def Path.text : Path → Option (String ⊕ (Nat × String))
  | .empty => none
  | .staged file => some (.inl file)
  | .browser t => some (.inr t.text)

def Path.token? : Path → Option Token
  | .browser t => some t
  | _ => none

/-! ## Profiles and the core -/

/-- The media of a profile. -/
structure Profile where
  cdEnabled : Bool
  cd : Path
  fda : Path
  fdb : Path
  hdd : List Path

/-- The paths that `_referencedPaths` takes from a profile. -/
def Profile.paths (p : Profile) : List Path := p.cd :: p.fda :: p.fdb :: p.hdd

def Profile.tokens (p : Profile) : List Token := p.paths.filterMap Path.token?

inductive EmuState
  | idle
  | running
  | paused
  deriving DecidableEq, Repr

/-- The core: its state, and the slots that its hard disks and its CD drive have open. -/
structure Core where
  state : EmuState
  hdds : List Nat
  cd : Option Nat
  deriving DecidableEq

/-- `this.mounted`. -/
structure Mounted where
  cd : Path
  fda : Path
  fdb : Path

/-- The configure dialog: the entry that it edits (`none` for a new system), the profile that it
works on, and whether it was saved and only has to close. -/
structure Editor where
  target : Option Nat
  profile : Profile
  saved : Bool

/-- The page. `profiles` holds the identities of the profile objects, `saved` is the profile store,
and `disks` the slots, of which the core and `browserDisks` keep the same account. -/
structure Page where
  profiles : List Nat
  objects : Nat → Profile
  nextObject : Nat
  saved : List Profile
  runningIndex : Option Nat
  runningProfile : Option Nat
  mounted : Mounted
  disks : Nat → Option DiskFile
  editor : Option Editor
  boots : List (Nat × Nat)
  attaching : List Token
  core : Core

/-- What the core answers to a call: whether it gets the lock, whether a CD image opens, whether
the ROMs are there, and which hard disks the machine's controller takes. -/
structure CoreAnswer where
  granted : Bool
  opens : Bool
  roms : Bool
  takes : Nat → Bool

/-- A core that grants every call. -/
def CoreAnswer.willing : CoreAnswer := ⟨true, true, true, fun _ => true⟩

/-- `DISKIO_MAX_DISKS`. -/
abbrev maxDisks : Nat := 8

/-! ## Consumers of tokens -/

/-- `emu.isDiskRegistered` and the test of `wasm_diskio_parse`: only the number counts. -/
def Page.isDiskRegistered (s : Page) (t : Token) : Bool := (s.disks t.id).isSome

/-- The disk that `hdd_load_ext` attaches for a token, or that a download or an export reads. -/
def Page.diskOf (s : Page) (t : Token) : Option DiskFile := s.disks t.id

/-- The slot that the core opens for a path. -/
def Page.openSlot (s : Page) (p : Path) : Option Nat :=
  p.token?.bind fun t => if s.isDiskRegistered t then some t.id else none

/-! ## The registry -/

/-- The slot that `wasm_diskio_register` takes. -/
def Page.freeSlot (s : Page) : Option Nat := (List.range maxDisks).find? fun id => (s.disks id).isNone

/-- `registerDiskFile` and `registerDiskUrl`. With no slot free they throw. -/
def Page.register (s : Page) (file : DiskFile) : Page :=
  match s.freeSlot with
  | none => s
  | some id =>
    { s with
      disks := Function.update s.disks id (some file),
      attaching := s.attaching ++ [⟨id, sanitise file.name, file.disk⟩] }

/-- `unregisterDiskPath`. -/
def Page.unregister (s : Page) (id : Nat) : Page :=
  { s with disks := Function.update s.disks id none }

/-- The name that `registeredDiskPaths` gives to a slot. -/
def DiskFile.pathName (file : DiskFile) : String :=
  sanitise (if file.name = "" then "disk" else file.name)

/-- `_referencedPaths`: the paths of every profile, of the running one and of the drives. -/
def Page.referencedPaths (s : Page) : List Path :=
  s.profiles.flatMap (fun o => (s.objects o).paths) ++
    (s.runningProfile.toList.flatMap fun o => (s.objects o).paths) ++
      [s.mounted.cd, s.mounted.fda, s.mounted.fdb]

/-- A slot's token is among the referenced paths. -/
def Page.referenced (s : Page) (id : Nat) (file : DiskFile) : Bool :=
  s.referencedPaths.any fun p => p.text = some (.inr (id, file.pathName))

/-- `sweepOrphanDisks`. -/
def Page.sweepOrphanDisks (s : Page) : Page :=
  { s with disks := fun id => (s.disks id).filter (s.referenced id) }

/-- `_persist`. -/
def Page.persist (s : Page) : Page := { s with saved := s.profiles.map s.objects }

/-! ## Live swaps -/

/-- `pcem_wasm_cdrom_load` and `pcem_wasm_cdrom_eject`. -/
def Page.coreCd (s : Page) (path : Path) (a : CoreAnswer) : Core :=
  if a.granted then { s.core with cd := if a.opens then s.openSlot path else none } else s.core

/-- What a swap changes in the running profile. -/
def Page.updateRunning (s : Page) (f : Profile → Profile) : Page :=
  match s.runningProfile with
  | none => s
  | some o =>
    let s := { s with objects := Function.update s.objects o (f (s.objects o)) }
    if s.runningIndex.isSome then s.persist else s

/-- `setCd`. -/
def Page.setCd (s : Page) (path : Path) (a : CoreAnswer) : Page :=
  if s.core.state = .idle then s
  else
    ({ s with core := s.coreCd path a, mounted := { s.mounted with cd := path } }.updateRunning
      fun p => { p with cd := path, cdEnabled := path != Path.empty }).sweepOrphanDisks

/-- `setFloppy`: drive `b` is the second. Floppies are staged, and the core opens no slot. -/
def Page.setFloppy (s : Page) (b : Bool) (path : Path) : Page :=
  if s.core.state = .idle then s
  else if b then
    ({ s with mounted := { s.mounted with fdb := path } }.updateRunning
      fun p => { p with fdb := path }).sweepOrphanDisks
  else
    ({ s with mounted := { s.mounted with fda := path } }.updateRunning
      fun p => { p with fda := path }).sweepOrphanDisks

/-- `_applyProfileToRunning`. -/
def Page.applyProfileToRunning (s : Page) (o : Nat) (a : CoreAnswer) : Page :=
  let s := { s with runningProfile := some o }
  let np := s.objects o
  let s := if np.cd.text ≠ s.mounted.cd.text then s.setCd np.cd a else s
  let s := if np.fda.text ≠ s.mounted.fda.text then s.setFloppy false np.fda else s
  if np.fdb.text ≠ s.mounted.fdb.text then s.setFloppy true np.fdb else s

/-! ## The dialog -/

/-- An empty profile, for a new system. -/
def Profile.blank : Profile := ⟨false, .empty, .empty, .empty, []⟩

/-- `editor.open` clones the profile. -/
def Page.openEditor (s : Page) (target : Option Nat) : Page :=
  let profile := match target.bind (s.profiles[·]?) with
    | some o => s.objects o
    | none => .blank
  { s with editor := some ⟨target, profile, false⟩ }

/-- The tokens that a profile may name: those of `held`. -/
def Profile.namesOnly (p : Profile) (held : List Token) : Bool := p.tokens.all (· ∈ held)

/-- Tokens that have found their place. -/
def Page.attached (s : Page) (tokens : List Token) : Page :=
  { s with attaching := s.attaching.filter (· ∉ tokens) }

/-- The dialog's fields: any profile over its own tokens and those just attached. -/
def Page.edit (s : Page) (np : Profile) : Page :=
  match s.editor with
  | some e =>
    if !e.saved && np.namesOnly (e.profile.tokens ++ s.attaching) then
      { s with editor := some { e with profile := np } }.attached np.tokens
    else s
  | none => s

/-- A new object for a profile. -/
def Page.alloc (s : Page) (p : Profile) : Page :=
  { s with objects := Function.update s.objects s.nextObject p, nextObject := s.nextObject + 1 }

/-- `onSave`: of a new system, or of entry `i`, which applies to the machine if it runs. -/
def Page.save (s : Page) (a : CoreAnswer) : Page :=
  match s.editor with
  | some ⟨target, np, false⟩ =>
    let o := s.nextObject
    let s := { s.alloc np with editor := some ⟨target, np, true⟩ }
    match target with
    | none => { s with profiles := s.profiles ++ [o] }.persist
    | some i =>
      let live : Bool := s.runningIndex = some i && s.core.state ≠ .idle
      let s := { s with profiles := s.profiles.set i o }.persist
      if live then s.applyProfileToRunning o a else s
  | _ => s

/-- The dialog closes, after a save or not. -/
def Page.close (s : Page) : Page := { s with editor := none }.sweepOrphanDisks

/-! ## Boot and stop -/

/-- `_stateChanged(IDLE)`. -/
def Page.becameIdle (s : Page) : Page :=
  { s with
    runningIndex := none, runningProfile := none,
    mounted := ⟨.empty, .empty, .empty⟩ }.sweepOrphanDisks

/-- `pcem_wasm_stop`, from the button or from the core, with the callback that it makes. -/
def Page.coreStop (s : Page) (a : CoreAnswer) : Page :=
  if s.core.state = .idle ∨ a.granted = false then s
  else { s with core := ⟨.idle, [], none⟩ }.becameIdle

/-- `stopMachine`. -/
def Page.stopMachine (s : Page) (a : CoreAnswer) : Page :=
  { s.coreStop a with runningIndex := none }

/-- `bootMachine` up to its first await. -/
def Page.bootBegin (s : Page) (i : Nat) (a : CoreAnswer) : Page :=
  match s.profiles[i]? with
  | none => s
  | some o => { s.coreStop a with boots := s.boots ++ [(o, i)] }

/-- The slots that the core opens for the hard disks of a profile. -/
def Page.openHdds (s : Page) (p : Profile) (a : CoreAnswer) : List Nat :=
  ((List.range p.hdd.length).filter a.takes).filterMap fun k => p.hdd[k]?.bind s.openSlot

/-- `pcem_wasm_start`: what the core has open afterwards, if it starts. -/
def Page.coreStart (s : Page) (p : Profile) (a : CoreAnswer) : Option Core :=
  if s.core.state = .running ∨ a.roms = false then none
  else some ⟨.running, s.openHdds p a,
    if p.cdEnabled && a.opens then s.openSlot p.cd else none⟩

/-- `bootMachine` from `emu.start` on, for the boot at position `k` of those under way. -/
def Page.bootFinish (s : Page) (k : Nat) (a : CoreAnswer) : Page :=
  match s.boots[k]? with
  | none => s
  | some (o, i) =>
    let p := s.objects o
    let s := { s with boots := s.boots.eraseIdx k }
    match s.coreStart p a with
    | none => s
    | some core =>
      { s with
        core := core, runningIndex := some i, runningProfile := some o,
        mounted := ⟨p.cd, p.fda, p.fdb⟩ }.sweepOrphanDisks

/-- `pcem_wasm_set_paused`. -/
def Page.setPaused (s : Page) (paused : Bool) : Page :=
  if s.core.state = .idle then s
  else { s with core := { s.core with state := if paused then .paused else .running } }

/-! ## Steps -/

/-- What happens to the page. -/
inductive Event
  | register (file : DiskFile)
  | abandon (t : Token)
  | setCd (path : Path) (a : CoreAnswer)
  | setFloppy (b : Bool) (path : Path)
  | openEditor (target : Option Nat)
  | edit (np : Profile)
  | save (a : CoreAnswer)
  | close
  | bootBegin (i : Nat) (a : CoreAnswer)
  | bootFinish (k : Nat) (a : CoreAnswer)
  | stopMachine (a : CoreAnswer)
  | coreStop (a : CoreAnswer)
  | setPaused (paused : Bool)
  | delete (i : Nat)
  | importProfile (p : Profile) (stored : Bool)
  | reload

/-- `Delete` refuses the running system. -/
def Page.delete (s : Page) (i : Nat) : Page :=
  if s.runningIndex = some i then s
  else
    { s with
      profiles := s.profiles.eraseIdx i,
      runningIndex := s.runningIndex.map fun r => if i < r then r - 1 else r }.persist

/-- A profile from a file, which is stored, or from a link, which is not yet. -/
def Page.importProfile (s : Page) (p : Profile) (stored : Bool) : Page :=
  let s := { s.alloc p with profiles := s.profiles ++ [s.nextObject] }.attached p.tokens
  if stored then s.persist else s

/-- A page session with the profiles of a store. -/
def Page.session (saved : List Profile) : Page where
  profiles := List.range saved.length
  objects o := saved[o]?.getD .blank
  nextObject := saved.length
  saved := saved
  runningIndex := none
  runningProfile := none
  mounted := ⟨.empty, .empty, .empty⟩
  disks := fun _ => none
  editor := none
  boots := []
  attaching := []
  core := ⟨.idle, [], none⟩

/-- One step. A failed header read gives its slot back by number, and a live CD swap takes a disk
that was just attached. -/
def Page.step (s : Page) : Event → Option Page
  | .register file => some (s.register file)
  | .abandon t =>
    if t ∈ s.attaching then
      some ((s.attached [t]).unregister t.id)
    else none
  | .setCd path a =>
    if path.token?.all (· ∈ s.attaching) then some ((s.attached path.token?.toList).setCd path a)
    else none
  | .setFloppy b path => if path.token?.isNone then some (s.setFloppy b path) else none
  | .openEditor target => some (s.openEditor target)
  | .edit np => some (s.edit np)
  | .save a => some (s.save a)
  | .close => some s.close
  | .bootBegin i a => some (s.bootBegin i a)
  | .bootFinish k a => some (s.bootFinish k a)
  | .stopMachine a => some (s.stopMachine a)
  | .coreStop a => some (s.coreStop a)
  | .setPaused paused => some (s.setPaused paused)
  | .delete i => some (s.delete i)
  | .importProfile p stored => some (s.importProfile p stored)
  | .reload => some (.session s.saved)

end PCemWeb.Web
