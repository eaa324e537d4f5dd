import PCemWeb.Lib.Run
import PCemWeb.Web.Geometry
import PCemWeb.Web.Media

/-!
# Deep links

`resolveDeepLink` of `deeplink.js` with `stageUrl` of `media.js` and `registerDiskUrl` of
`emulator.js`. The jobs of a link run side by side: what a job does between two awaits is one step.
A run is one order in which the probes, registrations, chunks and preloads of all jobs end. A job
that throws rejects the whole link, which then has no profile.

The CMOS files of a manifest do not touch the profile and are left out.
-/

namespace PCemWeb.Web

/-- What the browser finds behind URLs: `new URL(rel, base).href`, the `pathname` of an absolute
URL, the size that `remoteSize` is told and the bytes of the body. -/
structure Hosting : Type where
  resolve : String → String → String
  pathname : String → String
  size : String → Nat
  data : String → List (BitVec 8)

structure HddEntry : Type where
  file : Path
  geometry : Geometry
  url : Option String
  deriving DecidableEq

structure FddEntry : Type where
  type : Nat
  image : Path
  url : Option String
  deriving DecidableEq

structure Cdrom : Type where
  enabled : Bool
  image : Path
  channel : Option Nat
  url : Option String
  deriving DecidableEq

/-- The media of a profile that `normalizeProfile` returns: seven hard disks at most, whose entries
may be missing, and two floppies. -/
@[ext] structure LinkProfile : Type where
  hdd : Nat → Option HddEntry
  fdd : Nat → FddEntry
  cdrom : Cdrom

/-- A link: the fetched profile and the query parameters, an empty one being none. -/
structure Link : Type where
  pageUrl : String
  profileUrl : String
  profile : LinkProfile
  disk : Option String
  disk2 : Option String
  fd : Option String
  fd2 : Option String
  cd : Option String

inductive Slot : Type
  | hdd (i : Nat)
  | fdd (i : Nat)
  | cdrom
  deriving DecidableEq

/-- Disks and CDs are registered and read on demand, floppies are staged. -/
def Slot.lazily : Slot → Bool
  | .fdd _ => false
  | _ => true

/-- A job with its absolute URL. -/
structure Job : Type where
  slot : Slot
  url : String
  deriving DecidableEq

/-! ## Names -/

/-- `text.split('/').pop() || 'remote.img'`. -/
def lastPart (text : String) : String :=
  let part := String.ofList (text.toList.reverse.takeWhile (· ≠ '/')).reverse
  if part = "" then "remote.img" else part

variable (w : Hosting) (l : Link)

/-- The file under `MEDIA_DIR` that `stageUrl` writes. -/
def Hosting.stagedName (url : String) : String := sanitise (lastPart (w.pathname url))

/-! ## The jobs -/

namespace Link

def slots : List Slot := (List.range 7).map .hdd ++ (List.range 2).map .fdd ++ [.cdrom]

/-- The URL that the manifest has for a slot. -/
def manifestUrl : Slot → Option String
  | .hdd i =>
    if i < 7 then ((l.profile.hdd i).bind (·.url)).map (w.resolve · l.profileUrl) else none
  | .fdd i => if i < 2 then (l.profile.fdd i).url.map (w.resolve · l.profileUrl) else none
  | .cdrom => l.profile.cdrom.url.map (w.resolve · l.profileUrl)

/-- The URL that the query has for a slot. Floppies are fetched as they are, so relative to the
page. -/
def queryUrl : Slot → Option String
  | .hdd 0 => l.disk.map (w.resolve · l.profileUrl)
  | .hdd 1 => l.disk2.map (w.resolve · l.profileUrl)
  | .fdd 0 => l.fd.map (w.resolve · l.pageUrl)
  | .fdd 1 => l.fd2.map (w.resolve · l.pageUrl)
  | .cdrom => l.cd.map (w.resolve · l.profileUrl)
  | _ => none

/-- A query parameter takes precedence. -/
def wantedUrl (slot : Slot) : Option String := (l.queryUrl w slot).or (l.manifestUrl w slot)

/-- The jobs for the slots that have a URL. -/
def jobsOf (url : Slot → Option String) : List Job :=
  slots.filterMap fun slot => (url slot).map (Job.mk slot)

def jobs : List Job := jobsOf (l.manifestUrl w) ++ jobsOf (l.queryUrl w)

/-- The jobs that register a disk. -/
def diskJobs : List Nat :=
  (List.range (l.jobs w).length).filter fun j => ((l.jobs w)[j]?).any (·.slot.lazily)

end Link

/-! ## Running them -/

/-- Where a job stands. A CD keeps its token while its header is preloaded, a floppy the bytes
written so far. -/
inductive Phase : Type
  | waiting
  | preloading (token : Token)
  | reading (written : Nat)
  | done
  deriving DecidableEq

/-- `disks` lists the jobs whose disks are registered, by id, and `files` the job whose stream
writes the node that a path names. -/
structure LinkState : Type where
  profile : LinkProfile
  disks : List Nat
  files : String → Option Nat
  phase : Nat → Phase

inductive LinkEvent : Type
  | proceed (j : Nat)
  | chunk (j n : Nat)

namespace LinkState

def start : LinkState where
  profile := l.profile
  disks := []
  files _ := none
  phase _ := .waiting

variable (s : LinkState)

def setPhase (j : Nat) (phase : Phase) : LinkState :=
  { s with phase := Function.update s.phase j phase }

/-- The token that `registerDiskUrl` returns next. -/
def token (j : Nat) (url : String) : Token := ⟨s.disks.length, sanitise (lastPart url), j⟩

/-- `registerDiskUrl`: it throws when the eight slots are taken. -/
def registerDiskUrl (j : Nat) : Option LinkState :=
  if s.disks.length < 8 then some { s with disks := s.disks ++ [j] } else none

/-- The geometry that `lazyDisk` picks: that of the slot's entry, if it has one. -/
def pickGeometry (i : Nat) (url : String) : Geometry :=
  match s.profile.hdd i with
  | some h => if h.geometry.cylinders ≠ 0 then h.geometry else guessGeometry (w.size url)
  | none => guessGeometry (w.size url)

/-- `profile.hdd[slot] = …`, which keeps no URL. -/
def setHdd (i : Nat) (entry : HddEntry) : LinkState :=
  { s with profile := { s.profile with hdd := Function.update s.profile.hdd i (some entry) } }

def setFdd (i : Nat) (image : Path) : LinkState :=
  { s with profile := { s.profile with
      fdd := Function.update s.profile.fdd i { s.profile.fdd i with image } } }

def setCdrom (image : Path) : LinkState :=
  { s with profile := { s.profile with
      cdrom := { s.profile.cdrom with
        enabled := true, image, channel := some (s.profile.cdrom.channel.getD 2) } } }

/-- `lazyDisk` after the size is known. -/
def lazyDisk (j i : Nat) (url : String) : Option LinkState :=
  match s.phase j with
  | .waiting => (s.registerDiskUrl j).map fun t =>
    (t.setHdd i ⟨.browser (s.token j url), s.pickGeometry w i url, none⟩).setPhase j .done
  | _ => none

/-- `stageUrl` after the response has come, and after the last chunk. -/
def stageUrl (j i : Nat) (url : String) : Option LinkState :=
  match s.phase j with
  | .waiting =>
    some ({ s with files := Function.update s.files (w.stagedName url) (some j) }.setPhase j
      (.reading 0))
  | .reading written =>
    if written = (w.data url).length then
      some ((s.setFdd i (.staged (w.stagedName url))).setPhase j .done)
    else none
  | _ => none

/-- `lazyCd` after the size is known, and after the header is loaded. -/
def lazyCd (j : Nat) (url : String) : Option LinkState :=
  match s.phase j with
  | .waiting => (s.registerDiskUrl j).map fun t => t.setPhase j (.preloading (s.token j url))
  | .preloading token => some ((s.setCdrom (.browser token)).setPhase j .done)
  | _ => none

/-- A chunk of a body, which the stream appends. -/
def chunk (j n : Nat) (url : String) : Option LinkState :=
  match s.phase j with
  | .reading written =>
    if written + n ≤ (w.data url).length then some (s.setPhase j (.reading (written + n)))
    else none
  | _ => none

def step (jobs : List Job) (s : LinkState) : LinkEvent → Option LinkState
  | .proceed j =>
    match jobs[j]? with
    | some ⟨.hdd i, url⟩ => s.lazyDisk w j i url
    | some ⟨.fdd i, url⟩ => s.stageUrl w j i url
    | some ⟨.cdrom, url⟩ => s.lazyCd j url
    | none => none
  | .chunk j n =>
    match jobs[j]? with
    | some ⟨.fdd _, url⟩ => s.chunk w j n url
    | _ => none

/-! ## What it leaves -/

/-- The URL of the disk behind an id. -/
def diskUrl (jobs : List Job) (id : Nat) : Option String :=
  ((s.disks[id]?).bind (jobs[·]?)).map (·.url)

/-- The bytes of the node that a job's stream has written. -/
def written (j : Nat) (url : String) : List (BitVec 8) :=
  match s.phase j with
  | .reading n => (w.data url).take n
  | .done => w.data url
  | _ => []

/-- The bytes at a path under `MEDIA_DIR`. -/
def content (jobs : List Job) (name : String) : Option (List (BitVec 8)) :=
  (s.files name).bind fun j => (jobs[j]?).map fun job => s.written w j job.url

end LinkState

/-- `await Promise.all(jobs)` has returned. -/
def Link.Returns (t : LinkState) : Prop :=
  (∃ events, Lib.exec (LinkState.step w (l.jobs w)) (LinkState.start l) events = some t) ∧
    ∀ j < (l.jobs w).length, t.phase j = .done

def Path.renamed (f : Nat → Nat) : Path → Path
  | .browser token => .browser { token with id := f token.id }
  | path => path

/-- The profile with other ids in its tokens. -/
def LinkProfile.renamed (p : LinkProfile) (f : Nat → Nat) : LinkProfile where
  hdd i := (p.hdd i).map fun h => { h with file := h.file.renamed f }
  fdd i := { p.fdd i with image := (p.fdd i).image.renamed f }
  cdrom := { p.cdrom with image := p.cdrom.image.renamed f }

def LinkProfile.References (p : LinkProfile) (id : Nat) : Prop :=
  (∃ i h token, p.hdd i = some h ∧ h.file = .browser token ∧ token.id = id) ∨
    ∃ token, p.cdrom.image = .browser token ∧ token.id = id

namespace Link

/-- The geometry of the disk of a slot: that of the entry, if it has one and is not about another
file, else the one guessed from the size of the disk. -/
def geometryOf (i : Nat) (url : String) : Geometry :=
  match l.profile.hdd i with
  | some h =>
    if h.geometry.cylinders ≠ 0 ∧ (l.queryUrl w (.hdd i) = none ∨ h.file = .empty) then h.geometry
    else guessGeometry (w.size url)
  | none => guessGeometry (w.size url)

/-- Each slot has the medium that its own URL names, other slots are as the manifest has them, and
every registered disk is in the profile. -/
structure Resolved (t : LinkState) : Prop where
  hdd : ∀ i url, l.wantedUrl w (.hdd i) = some url → ∃ token : Token,
    t.profile.hdd i = some ⟨.browser token, l.geometryOf w i url, none⟩ ∧
      t.diskUrl (l.jobs w) token.id = some url
  fdd : ∀ i url, l.wantedUrl w (.fdd i) = some url →
    t.profile.fdd i = { l.profile.fdd i with image := .staged (w.stagedName url) } ∧
      t.content w (l.jobs w) (w.stagedName url) = some (w.data url)
  cdrom : ∀ url, l.wantedUrl w .cdrom = some url → ∃ token : Token,
    t.profile.cdrom = { l.profile.cdrom with
      enabled := true, image := .browser token,
      channel := some (l.profile.cdrom.channel.getD 2) } ∧
      t.diskUrl (l.jobs w) token.id = some url
  otherHdd : ∀ i, l.wantedUrl w (.hdd i) = none → t.profile.hdd i = l.profile.hdd i
  otherFdd : ∀ i, l.wantedUrl w (.fdd i) = none → t.profile.fdd i = l.profile.fdd i
  otherCdrom : l.wantedUrl w .cdrom = none → t.profile.cdrom = l.profile.cdrom
  referenced : ∀ id < t.disks.length, t.profile.References id

/-- Whatever the order in which the jobs end, the profile is right, and it is the same profile but
for the ids in its tokens. -/
def OrderFree : Prop :=
  ∀ t, l.Returns w t → l.Resolved w t ∧
    ∀ u, l.Returns w u → ∃ f : Nat → Nat, Function.Injective f ∧
      u.profile = t.profile.renamed f

/-- A path that the manifest has for a slot without a URL. -/
def Keeps (path : Path) : Prop :=
  (∃ i h, l.profile.hdd i = some h ∧ h.file = path ∧ l.wantedUrl w (.hdd i) = none) ∨
    (∃ i, (l.profile.fdd i).image = path ∧ l.wantedUrl w (.fdd i) = none) ∨
      l.profile.cdrom.image = path ∧ l.wantedUrl w .cdrom = none

/-- No disk or CD has a URL from the manifest and from the query, floppies that are staged under one
name are the same file and those of one drive have one name, the query puts no disk where the
manifest has the geometry of another file, and no other slot of the manifest has a token of an id
that goes to one of several disks. -/
structure Servable : Prop where
  once : ∀ slot : Slot, slot.lazily = true →
    l.queryUrl w slot = none ∨ l.manifestUrl w slot = none
  sameName : ∀ i fromQuery fromManifest, l.queryUrl w (.fdd i) = some fromQuery →
    l.manifestUrl w (.fdd i) = some fromManifest →
      w.stagedName fromQuery = w.stagedName fromManifest
  sameData : ∀ i k a b, ⟨.fdd i, a⟩ ∈ l.jobs w → ⟨.fdd k, b⟩ ∈ l.jobs w →
    w.stagedName a = w.stagedName b → w.data a = w.data b
  ownGeometry : ∀ i url h, l.queryUrl w (.hdd i) = some url → l.profile.hdd i = some h →
    h.file ≠ .empty → h.geometry.cylinders ≠ 0 → h.geometry = guessGeometry (w.size url)
  fresh : ∀ token, l.Keeps w (.browser token) →
    (l.diskJobs w).length ≤ token.id ∨ (l.diskJobs w).length = 1

end Link

end PCemWeb.Web
