import PCemWeb.Lib.LowestBit

/-!
# The interrupt controllers

Two 8259s, the second behind line 2 of the first. A controller keeps its pending requests in
`pend`, those in service in `ins`, the mask that the guest sets in `mask` and in `mask2` the
levels that the requests in service hold off. Bit 2 of the first controller's `pend` is derived
from the second. The lines are numbered 0 to 7 and 8 to 15.
-/

namespace PCemWeb.Interrupts

open PCemWeb.Lib

/-- What the next write to the odd port is. -/
inductive Icw
  | ocw1
  | icw2
  | icw3
  | icw4
  deriving DecidableEq, Repr

/-- `PIC`. -/
structure Pic where
  icw1 : BitVec 8
  icw4 : BitVec 8
  mask : BitVec 8
  ins : BitVec 8
  pend : BitVec 8
  mask2 : BitVec 8
  icw : Icw
  vector : BitVec 8
  read : Bool
  levelSensitive : BitVec 8
  deriving DecidableEq

/-- The two controllers and the globals beside them. -/
structure Pics where
  pic : Pic
  pic2 : Pic
  /-- `pic_intpending`. -/
  intpending : BitVec 8
  /-- `pic_current`. -/
  current : Nat → Bool
  /-- `AT || romset == ROM_XI8088`: there is a second controller. -/
  at_ : Bool

/-- `1 << c`. -/
def bit (c : Nat) : BitVec 8 := 1#8 <<< c

/-- `pend & ~mask`. -/
def Pic.unmasked (p : Pic) : BitVec 8 := p.pend &&& ~~~p.mask

/-- `(pend & ~mask) & ~mask2`. -/
def Pic.ready (p : Pic) : BitVec 8 := p.unmasked &&& ~~~p.mask2

/-- The request of one line is withdrawn. -/
def Pic.drop (p : Pic) (c : Nat) : Pic := { p with pend := p.pend &&& ~~~bit c }

/-- `ins |= 1 << c` and `pic_update_mask`. -/
def Pic.service (p : Pic) (c : Nat) : Pic :=
  { p with ins := p.ins ||| bit c, mask2 := fromLowest (p.ins ||| bit c) }

/-- `ins &= ~(1 << c)` and `pic_update_mask`. -/
def Pic.endService (p : Pic) (c : Nat) : Pic :=
  { p with ins := p.ins &&& ~~~bit c, mask2 := fromLowest (p.ins &&& ~~~bit c) }

/-- The cascade bit of the first controller follows the second controller. -/
def Pic.withCascade (p p2 : Pic) : Pic :=
  { p with pend := if p2.ready ≠ 0 then p.pend ||| bit 2 else p.pend &&& ~~~bit 2 }

/-- What `pic_intpending` is set to when there are two controllers. -/
def outgoing (p p2 : Pic) : BitVec 8 :=
  if (p.mask ||| p.mask2) &&& bit 2 = 0 then p.ready ||| p2.ready else p.ready

namespace Pics

/-- `pic_updatepending`. -/
def picUpdatepending (s : Pics) : Pics :=
  if s.at_ then
    { s with pic := s.pic.withCascade s.pic2
             intpending := outgoing (s.pic.withCascade s.pic2) s.pic2 }
  else { s with intpending := s.pic.ready }

/-- `pic.pend |= (1 << 2)` when the second controller has a request that is not held off. -/
def cascade (s : Pics) : Pics :=
  if s.pic2.ready ≠ 0 then { s with pic := { s.pic with pend := s.pic.pend ||| bit 2 } } else s

/-- `pic_reset`. It clears `mask2` of the first controller twice and that of the second never. -/
def picReset (s : Pics) : Pics :=
  { s with
    pic := { s.pic with icw := .ocw1, mask := 0xff, mask2 := 0, pend := 0, ins := 0,
                        vector := 8, read := true, levelSensitive := 0 }
    pic2 := { s.pic2 with icw := .ocw1, mask := 0xff, pend := 0, ins := 0, levelSensitive := 0 }
    intpending := 0 }

/-- `pic_autoeoi`. -/
def picAutoeoi (s : Pics) : Pics :=
  match lowest s.pic.ins with
  | none => s
  | some c =>
    let s := { s with pic := s.pic.endService c }
    (if s.at_ ∧ c = 2 then s.cascade else s).picUpdatepending

/-- `pic2_autoeoi`. -/
def pic2Autoeoi (s : Pics) : Pics :=
  match lowest s.pic2.ins with
  | none => s
  | some c => { s with pic2 := s.pic2.endService c }.picUpdatepending

end Pics

/-- The request of a line that is not level sensitive ends with its acknowledgement. -/
def Pic.accept (p : Pic) (c : Nat) : Pic :=
  if p.levelSensitive &&& bit c = 0 then p.drop c else p

/-- What a write to the odd port does to its controller, and whether it was OCW1. -/
def Pic.writeOdd (p : Pic) (val : BitVec 8) : Pic × Bool :=
  match p.icw with
  | .ocw1 => ({ p with mask := val }, true)
  | .icw2 =>
    ({ p with vector := val &&& 0xf8, icw := if p.icw1 &&& 2 ≠ 0 then .icw4 else .icw3 }, false)
  | .icw3 => ({ p with icw := if p.icw1 &&& 1 ≠ 0 then .icw4 else .ocw1 }, false)
  | .icw4 => ({ p with icw4 := val, icw := .ocw1 }, false)

/-- ICW1. -/
def Pic.icw1Write (p : Pic) (val : BitVec 8) : Pic :=
  { p with mask := 0, mask2 := 0, icw := .icw2, icw1 := val, ins := 0 }

/-- OCW3. -/
def Pic.ocw3Write (p : Pic) (val : BitVec 8) : Pic :=
  if val &&& 2 ≠ 0 then { p with read := val &&& 1 ≠ 0 } else p

namespace Pics

/-- `pic_write`. -/
def picWrite (s : Pics) (addr : BitVec 16) (val : BitVec 8) : Pics :=
  if addr &&& 1 ≠ 0 then
    let (pic, ocw1) := s.pic.writeOdd val
    if ocw1 then { s with pic }.picUpdatepending else { s with pic }
  else if val &&& 16 ≠ 0 then { s with pic := s.pic.icw1Write val }.picUpdatepending
  else if val &&& 8 = 0 then
    if val &&& 0xe0 = 0x60 then
      -- Specific EOI; `val == 2` can not be here
      let s := { s with pic := s.pic.endService (val &&& 7).toNat }
      (if val = 2 then s.cascade else s).picUpdatepending
    else
      match lowest s.pic.ins with
      | none => s
      | some c =>
        let s := { s with pic := s.pic.endService c }
        (if c = 2 then s.cascade else s).picUpdatepending
  else { s with pic := s.pic.ocw3Write val }

/-- `pic2_write`. -/
def pic2Write (s : Pics) (addr : BitVec 16) (val : BitVec 8) : Pics :=
  if addr &&& 1 ≠ 0 then
    let (pic2, ocw1) := s.pic2.writeOdd val
    if ocw1 then { s with pic2 }.picUpdatepending else { s with pic2 }
  else if val &&& 16 ≠ 0 then { s with pic2 := s.pic2.icw1Write val }.picUpdatepending
  else if val &&& 8 = 0 then
    if val &&& 0xe0 = 0x60 then
      { s with pic2 := s.pic2.endService (val &&& 7).toNat }.picUpdatepending
    else
      match lowest s.pic2.ins with
      | none => s
      | some c => { s with pic2 := s.pic2.endService c }.picUpdatepending
  else { s with pic2 := s.pic2.ocw3Write val }

/-- `pic_elcrx_write`. -/
def picElcrxWrite (s : Pics) (addr : BitVec 16) (val : BitVec 8) : Pics :=
  if addr = 0x4d0 then { s with pic := { s.pic with levelSensitive := val &&& 0xf8 } }
  else if addr = 0x4d1 then { s with pic2 := { s.pic2 with levelSensitive := val &&& 0xde } }
  else s

/-! ## Requests -/

/-- Line 2 of an AT is line 9. -/
def reroute (s : Pics) (num : BitVec 16) : BitVec 16 :=
  if s.at_ ∧ num = 1 <<< 2 then 1 <<< 9 else num

/-- `pic2.pend |= (num >> 8)`. -/
def raise2 (s : Pics) (num : BitVec 16) : Pics :=
  { s with pic2 := { s.pic2 with pend := s.pic2.pend ||| (num >>> 8).setWidth 8 } }

/-- `pic.pend |= num`. -/
def raise (s : Pics) (num : BitVec 16) : Pics :=
  { s with pic := { s.pic with pend := s.pic.pend ||| num.setWidth 8 } }

/-- `picint`. -/
def picint (s : Pics) (num : BitVec 16) : Pics :=
  let num := s.reroute num
  (if s.at_ ∧ num > 0xff then (s.raise2 num).cascade
    else if num ≤ 0xff then s.raise num else s).picUpdatepending

/-- The index into `pic_current`, which does not exist when no line is given. -/
def lineOf (s : Pics) (num : BitVec 16) : Option Nat :=
  (lowest num).map fun c => if s.at_ ∧ num = 1 <<< 2 then 9 else c

/-- `picintlevel`, whose search for the line does not end when there is none. -/
def picintlevel (s : Pics) (num : BitVec 16) : Option Pics :=
  (s.lineOf num).map fun c =>
    let num := s.reroute num
    (if s.current c then s
      else
        let s := { s with current := Function.update s.current c true }
        if num > 0xff then s.raise2 num else s.raise num).picUpdatepending

/-- `picintc`. -/
def picintc (s : Pics) (num : BitVec 16) : Pics :=
  match s.lineOf num with
  | none => s
  | some c =>
    let num := s.reroute num
    let s := { s with current := Function.update s.current c false }
    (if s.at_ ∧ num > 0xff then
        let s := { s with pic2 := { s.pic2 with
          pend := s.pic2.pend &&& ~~~(num >>> 8).setWidth 8 } }
        if s.pic2.ready = 0 then { s with pic := s.pic.drop 2 } else s
      else if num ≤ 0xff then
        { s with pic := { s.pic with pend := s.pic.pend &&& ~~~num.setWidth 8 } }
      else s).picUpdatepending

/-! ## Acknowledgement -/

/-- The branch of `picinterrupt` for line `c` of the second controller. The first controller
loses the request of its own line `c`. -/
def acknowledge2 (s : Pics) (c : Nat) : BitVec 8 × Pics :=
  let edge := s.pic2.levelSensitive &&& bit c = 0
  let t := { s with
    pic := (if edge then s.pic.drop c else s.pic).service 2
    pic2 := (s.pic2.accept c).service c }.picUpdatepending
  (BitVec.ofNat 8 c + s.pic2.vector, if s.pic2.icw4 &&& 2 ≠ 0 then t.pic2Autoeoi else t)

/-- The branch for line `c` of the first controller. -/
def acknowledge (s : Pics) (c : Nat) : BitVec 8 × Pics :=
  let t := { s with pic := (s.pic.accept c).service c }.picUpdatepending
  (BitVec.ofNat 8 c + s.pic.vector, if s.pic.icw4 &&& 2 ≠ 0 then t.picAutoeoi else t)

/-- `picinterrupt`. The request from the second controller is looked for at each turn of the loop
over the lines of the first, so it comes before all of them, and the two loops share a counter. -/
def picinterrupt (s : Pics) : BitVec 8 × Pics :=
  if s.at_ ∧ s.pic.unmasked &&& bit 2 ≠ 0 then
    match lowest s.pic2.unmasked with
    | none => (0xff, s)
    | some c => s.acknowledge2 c
  else
    match lowest s.pic.unmasked with
    | none => (0xff, s)
    | some c => s.acknowledge c

end Pics

end PCemWeb.Interrupts
