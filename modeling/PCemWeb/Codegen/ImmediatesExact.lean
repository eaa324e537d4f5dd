import PCemWeb.Codegen.Immediates

/-!
# The immediates that are loaded

The value that the micro-operations leave in the destination, byte by byte, against the value that
the code fetch of an ordinary block reads at the same address.
-/

namespace PCemWeb

open Lib

/-! ## The statement -/

/-- The three loads. -/
inductive ImmSize : Type
  | byte
  | word
  | dword

namespace ImmSize

/-- `fastreadb`, `fastreadw` or `fastreadl`. -/
def fastread (n : ImmSize) (pages : CodePages) (host : Nat → BitVec 8) (addr : BitVec 32)
    (c : PcCache) : Option (BitVec 32) :=
  match n with
  | .byte => (fastreadb pages host addr c).map fun r => r.1.setWidth 32
  | .word => (fastreadw pages host addr c).map fun r => r.1.setWidth 32
  | .dword => (fastreadl pages host addr c).map fun r => r.1

/-- `LOAD_IMMEDIATE_FROM_RAM_8`, `_16` or `_32`. -/
def load (n : ImmSize) (pages : CodePages) (c : PcCache) (dest : Ireg) (addr : BitVec 32) :
    List ImmUop :=
  match n with
  | .byte => loadImmediateFromRam8 pages c dest addr
  | .word => loadImmediateFromRam16 pages c dest addr
  | .dword => loadImmediateFromRam32 pages c dest addr

/-- The register sizes that the handlers take. -/
def Takes : ImmSize → IregSize → Prop
  | .byte, s => s ≠ .bh
  | .word, s => s = .l ∨ s = .w
  | .dword, s => s = .l

end ImmSize

/-- The destination of a load: a register of the right size, and not the scratch register. -/
structure ImmDest (n : ImmSize) : Type where
  ireg : Ireg
  takes : n.Takes ireg.size
  apart : ireg.reg ≠ 36

/-- Where the fetch does not fault, the load leaves the value fetched in its destination. -/
def ImmediateExact (n : ImmSize) (pages : CodePages) (c : PcCache) (host : Nat → BitVec 8)
    (dest : ImmDest n) (addr : BitVec 32) : Prop :=
  ∀ v, n.fastread pages host addr c = some v → ∀ regs, ∃ regs',
    runUops host (n.load pages c dest.ireg addr) regs = some regs' ∧ regs'.src dest.ireg = v

/-! ## The condition -/

/-- The host address of a page, by the cache or by `getpccache`. -/
def pageBase (pages : CodePages) (c : PcCache) (page : BitVec 20) : Nat :=
  (cachedBase page c).getD (pages.base page)

/-- A fetch from the page does not fault. -/
def PageReady (pages : CodePages) (c : PcCache) (page : BitVec 20) : Prop :=
  cachedBase page c = none → pages.faults page = false

/-- The fetch crosses into the next page, and neither page faults. -/
def Crosses (n : Nat) (pages : CodePages) (c : PcCache) (addr : BitVec 32) : Prop :=
  4096 < pageOffset addr + n ∧ PageReady pages c (codePage addr) ∧
    pages.faults (codePage addr + 1) = false

/-- A word at the end of a page: its two bytes are equal, through the cache and without it. A double
word that crosses: the bytes of the next page are the same through the cache and without it. -/
def SameBytes (n : ImmSize) (pages : CodePages) (c : PcCache) (host : Nat → BitVec 8)
    (addr : BitVec 32) : Prop :=
  match n with
  | .byte => True
  | .word =>
      Crosses 2 pages c addr →
        host (pageBase pages c (codePage addr) + 4095) =
            host (pageBase pages c (codePage addr + 1)) ∧
          host (pageBase pages c (codePage addr) + 4095) = host (pages.base (codePage addr + 1))
  | .dword =>
      Crosses 4 pages c addr → ∀ j, j < pageOffset addr + 4 - 4096 →
        host (pageBase pages c (codePage addr + 1) + j) =
          host (pages.base (codePage addr + 1) + j)

/-! ## Addresses -/

section Addresses

variable {a : BitVec 32} {k : Nat}

theorem toNat_codePage (a : BitVec 32) : (codePage a).toNat = a.toNat / 4096 := by
  have bound := a.isLt
  rw [codePage, BitVec.extractLsb'_toNat, Nat.shiftRight_eq_div_pow, Nat.mod_eq_of_lt]
  omega

theorem toNat_add_small (small : k < 4096) :
    (a + BitVec.ofNat 32 k).toNat = (a.toNat + k) % 4294967296 := by
  rw [BitVec.toNat_add, BitVec.toNat_ofNat, Nat.mod_eq_of_lt (show k < 2 ^ 32 by omega)]

/-- An address further in the same page. -/
theorem page_add (inside : pageOffset a + k < 4096) :
    codePage (a + BitVec.ofNat 32 k) = codePage a ∧
      pageOffset (a + BitVec.ofNat 32 k) = pageOffset a + k := by
  have bound := a.isLt
  unfold pageOffset at inside ⊢
  have sum := toNat_add_small (a := a) (k := k) (by omega)
  refine ⟨BitVec.eq_of_toNat_eq ?_, ?_⟩
  · rw [toNat_codePage, toNat_codePage, sum]
    omega
  · rw [sum]
    omega

/-- An address in the next page. -/
theorem page_next (small : k < 4096) (outside : 4096 ≤ pageOffset a + k) :
    codePage (a + BitVec.ofNat 32 k) = codePage a + 1 ∧
      pageOffset (a + BitVec.ofNat 32 k) = pageOffset a + k - 4096 := by
  have bound := a.isLt
  unfold pageOffset at outside ⊢
  have sum := toNat_add_small (a := a) small
  refine ⟨BitVec.eq_of_toNat_eq ?_, ?_⟩
  · rw [toNat_codePage, sum, BitVec.toNat_add, toNat_codePage]
    change _ = (a.toNat / 4096 + 1) % 1048576
    omega
  · rw [sum]
    omega

theorem toNat_and_three (a : BitVec 32) : (a &&& 3).toNat = a.toNat % 4 := by
  rw [BitVec.toNat_and]
  exact Nat.and_two_pow_sub_one_eq_mod a.toNat 2

theorem toNat_align (a : BitVec 32) : (a &&& ~~~(3 : BitVec 32)).toNat = a.toNat / 4 * 4 := by
  have shifted : a &&& ~~~(3 : BitVec 32) = (a >>> 2) <<< 2 := by
    apply BitVec.eq_of_getLsbD_eq
    intro i inside
    have three : (3 : BitVec 32).getLsbD i = decide (i < 2) := by
      revert i
      decide
    rw [BitVec.getLsbD_and, BitVec.getLsbD_not, three, BitVec.getLsbD_shiftLeft,
      BitVec.getLsbD_ushiftRight]
    by_cases low : i < 2
    · simp [low]
    · have whole : 2 + (i - 2) = i := by omega
      simp [low, inside, whole]
  have bound := a.isLt
  rw [shifted, BitVec.toNat_shiftLeft, BitVec.toNat_ushiftRight, Nat.shiftLeft_eq,
    Nat.shiftRight_eq_div_pow, Nat.mod_eq_of_lt (by omega)]

end Addresses

/-! ## Fetched bytes -/

section Fetched

variable {pages : CodePages} {host : Nat → BitVec 8} {a : BitVec 32} {c : PcCache}

/-- The cache after a fetch from a page. -/
def cacheAfter (pages : CodePages) (c : PcCache) (page : BitVec 20) : PcCache :=
  some (page, pageBase pages c page)

open Classical in
theorem fetchPage_eq : fetchPage pages a c =
    if PageReady pages c (codePage a) then
      some (pageBase pages c (codePage a), cacheAfter pages c (codePage a))
    else none := by
  unfold fetchPage PageReady cacheAfter pageBase
  cases hit : cachedBase (codePage a) c with
  | none =>
    cases fault : pages.faults (codePage a) with
    | false => simp
    | true => simp
  | some base =>
    have cached : c = some (codePage a, base) := by
      unfold cachedBase at hit
      split at hit
      · split at hit
        · cases hit
          rename_i same
          rw [same]
        · cases hit
      · cases hit
    simp [cached]

theorem pageBase_after (page : BitVec 20) :
    pageBase pages (cacheAfter pages c page) page = pageBase pages c page := by
  simp [pageBase, cacheAfter, cachedBase]

theorem pageReady_after (page : BitVec 20) : PageReady pages (cacheAfter pages c page) page := by
  intro none_
  simp [cacheAfter, cachedBase] at none_

theorem pageBase_next (page : BitVec 20) :
    pageBase pages (cacheAfter pages c page) (page + 1) = pages.base (page + 1) := by
  simp [pageBase, cacheAfter, cachedBase]

theorem pageReady_next (page : BitVec 20) :
    PageReady pages (cacheAfter pages c page) (page + 1) ↔ pages.faults (page + 1) = false := by
  simp [PageReady, cacheAfter, cachedBase]

/-- Byte `j` of a fetch: from the page of the address, or from the next page without the cache. -/
def fetchedByte (pages : CodePages) (host : Nat → BitVec 8) (a : BitVec 32) (c : PcCache)
    (j : Nat) : BitVec 8 :=
  if pageOffset a + j < 4096 then host (pageBase pages c (codePage a) + (pageOffset a + j))
  else host (pages.base (codePage a + 1) + (pageOffset a + j - 4096))

/-- No page of a fetch of `n` bytes faults. -/
def FetchOk (n : Nat) (pages : CodePages) (a : BitVec 32) (c : PcCache) : Prop :=
  PageReady pages c (codePage a) ∧
    (4096 < pageOffset a + n → pages.faults (codePage a + 1) = false)

theorem fetchPage_ready (ready : PageReady pages c (codePage a)) : fetchPage pages a c =
    some (pageBase pages c (codePage a), cacheAfter pages c (codePage a)) := by
  rw [fetchPage_eq, if_pos ready]

theorem fetchPage_fault (fault : ¬PageReady pages c (codePage a)) : fetchPage pages a c = none := by
  rw [fetchPage_eq, if_neg fault]

theorem pageOffset_lt (a : BitVec 32) : pageOffset a < 4096 := Nat.mod_lt _ (by decide)

/-- The cache after a fetch of a word. -/
def cacheAfterWord (pages : CodePages) (a : BitVec 32) (c : PcCache) : PcCache :=
  if pageOffset a < 4095 then cacheAfter pages c (codePage a)
  else cacheAfter pages (cacheAfter pages c (codePage a)) (codePage a + 1)

theorem byteLane_joinBytes {lo hi : BitVec 8} {j : Nat} (inside : j < 2) :
    byteLane (lo.setWidth 16 ||| hi.setWidth 16 <<< 8) j = if j = 0 then lo else hi := by
  have shifted : hi.setWidth 16 <<< 8 = hi.setWidth 16 <<< (8 * 1) := rfl
  rw [byteLane_or, shifted, byteLane_shiftLeft (by omega), byteLane_setWidth (by omega)]
  match j with
  | 0 => simp [byteLane_self]
  | 1 => simp [byteLane_of_ge, byteLane_setWidth, byteLane_self]

theorem byteLane_joinWords {lo hi : BitVec 16} {j : Nat} (inside : j < 4) :
    byteLane (lo.setWidth 32 ||| hi.setWidth 32 <<< 16) j =
      if j < 2 then byteLane lo j else byteLane hi (j - 2) := by
  have shifted : hi.setWidth 32 <<< 16 = hi.setWidth 32 <<< (8 * 2) := rfl
  rw [byteLane_or, shifted, byteLane_shiftLeft (by omega), byteLane_setWidth (by omega)]
  by_cases low : j < 2
  · rw [if_pos low, if_pos low]
    exact BitVec.or_zero
  · rw [if_neg low, if_neg low, byteLane_of_ge (by omega), byteLane_setWidth (by omega)]
    exact BitVec.zero_or

theorem fastreadw_ok (ok : FetchOk 2 pages a c) : ∃ v,
    fastreadw pages host a c = some (v, cacheAfterWord pages a c) ∧
      ∀ j < 2, byteLane v j = fetchedByte pages host a c j := by
  obtain ⟨ready, next⟩ := ok
  have bound := pageOffset_lt a
  unfold fastreadw cacheAfterWord
  by_cases crosses : 0xffe < pageOffset a
  · obtain ⟨page, offset⟩ := @page_next a 1 (by omega) (by omega)
    have second : fetchPage pages (a + 1) (cacheAfter pages c (codePage a)) =
        some (pages.base (codePage a + 1),
          cacheAfter pages (cacheAfter pages c (codePage a)) (codePage a + 1)) := by
      have ready' : PageReady pages (cacheAfter pages c (codePage a)) (codePage (a + 1)) := by
        rw [show a + 1 = a + BitVec.ofNat 32 1 from rfl, page]
        exact (pageReady_next _).mpr (next (by omega))
      rw [fetchPage_ready ready', show a + 1 = a + BitVec.ofNat 32 1 from rfl, page, pageBase_next]
    rw [if_pos crosses, if_neg (by omega)]
    refine ⟨(host (pageBase pages c (codePage a) + pageOffset a)).setWidth 16 |||
      (host (pages.base (codePage a + 1) + pageOffset (a + 1))).setWidth 16 <<< 8, ?_, ?_⟩
    · simp only [fastreadb, fetchPage_ready ready, second, Option.bind_eq_bind, Option.bind_some,
        Option.pure_def]
    · intro j inside
      rw [byteLane_joinBytes inside, show a + 1 = a + BitVec.ofNat 32 1 from rfl, offset]
      unfold fetchedByte
      by_cases first : j = 0
      · rw [if_pos first, if_pos (by omega), first, Nat.add_zero]
      · rw [if_neg first, if_neg (by omega), show j = 1 by omega]
  · rw [if_neg crosses, if_pos (by omega)]
    refine ⟨le16 host (pageBase pages c (codePage a) + pageOffset a), ?_, ?_⟩
    · simp only [fetchPage_ready ready, Option.bind_eq_bind, Option.bind_some, Option.pure_def]
    · intro j inside
      rw [byteLane_le16 inside, fetchedByte, if_pos (by omega), Nat.add_assoc]

theorem fastreadw_fault (fault : ¬FetchOk 2 pages a c) : fastreadw pages host a c = none := by
  have bound := pageOffset_lt a
  unfold fastreadw
  by_cases ready : PageReady pages c (codePage a)
  · have crosses : 0xffe < pageOffset a := by
      by_contra within
      exact fault ⟨ready, fun crosses => absurd crosses (by omega)⟩
    obtain ⟨page, -⟩ := @page_next a 1 (by omega) (by omega)
    have second : fetchPage pages (a + 1) (cacheAfter pages c (codePage a)) = none := by
      refine fetchPage_fault fun ready' => fault ⟨ready, fun _ => ?_⟩
      rw [show a + 1 = a + BitVec.ofNat 32 1 from rfl, page] at ready'
      exact (pageReady_next _).mp ready'
    rw [if_pos crosses]
    simp only [fastreadb, fetchPage_ready ready, second, Option.bind_eq_bind, Option.bind_some,
      Option.bind_none, Option.pure_def]
  · rw [fastreadb, fetchPage_fault ready]
    split <;> rfl

/-- The second word of a double word that crosses: it may be fetched when the whole may, and its
bytes are the ones two further. -/
theorem second_word (crosses : 0xffd ≤ pageOffset a) (ready : PageReady pages c (codePage a))
    (first : FetchOk 2 pages a c) :
    (FetchOk 2 pages (a + 2) (cacheAfterWord pages a c) ↔ FetchOk 4 pages a c) ∧
      ∀ j < 2, fetchedByte pages host (a + 2) (cacheAfterWord pages a c) j =
        fetchedByte pages host a c (j + 2) := by
  have bound := pageOffset_lt a
  unfold cacheAfterWord
  by_cases inside : pageOffset a + 2 < 4096
  · obtain ⟨page, offset⟩ := @page_add a 2 inside
    change codePage (a + 2) = codePage a at page
    change pageOffset (a + 2) = pageOffset a + 2 at offset
    rw [if_pos (by omega)]
    unfold FetchOk fetchedByte
    rw [page, offset, pageBase_after]
    refine ⟨?_, fun j small => ?_⟩
    · refine and_congr (iff_of_true (pageReady_after _) ready) ?_
      rw [Nat.add_assoc]
    · rw [Nat.add_assoc, Nat.add_comm 2 j]
  · obtain ⟨page, offset⟩ := @page_next a 2 (by omega) (by omega)
    change codePage (a + 2) = codePage a + 1 at page
    change pageOffset (a + 2) = pageOffset a + 2 - 4096 at offset
    -- from offset 0xffe the next page is fetched here, from 0xfff it is cached already
    have state : ∀ c' : PcCache, c' = (if pageOffset a < 4095 then cacheAfter pages c (codePage a)
          else cacheAfter pages (cacheAfter pages c (codePage a)) (codePage a + 1)) →
        (PageReady pages c' (codePage a + 1) ↔ pages.faults (codePage a + 1) = false) ∧
          pageBase pages c' (codePage a + 1) = pages.base (codePage a + 1) := by
      rintro c' rfl
      by_cases early : pageOffset a < 4095
      · rw [if_pos early]
        exact ⟨pageReady_next _, pageBase_next _⟩
      · rw [if_neg early, pageBase_after]
        exact ⟨iff_of_true (pageReady_after _) (first.2 (by omega)), pageBase_next _⟩
    obtain ⟨readyNext, base⟩ := state _ rfl
    unfold FetchOk fetchedByte
    rw [page, offset, base]
    refine ⟨?_, fun j small => ?_⟩
    · rw [readyNext]
      constructor
      · rintro ⟨fault, -⟩
        exact ⟨ready, fun _ => fault⟩
      · rintro ⟨-, fault⟩
        exact ⟨fault (by omega), fun over_ => absurd over_ (by omega)⟩
    · rw [if_pos (by omega), if_neg (by omega),
        show pageOffset a + 2 - 4096 + j = pageOffset a + (j + 2) - 4096 by omega]

theorem fastreadl_ok (ok : FetchOk 4 pages a c) : ∃ v c',
    fastreadl pages host a c = some (v, c') ∧
      ∀ j < 4, byteLane v j = fetchedByte pages host a c j := by
  have bound := pageOffset_lt a
  unfold fastreadl
  by_cases inside : pageOffset a < 0xffd
  · rw [if_pos inside]
    refine ⟨le32 host (pageBase pages c (codePage a) + pageOffset a),
      cacheAfter pages c (codePage a), ?_, ?_⟩
    · simp only [fetchPage_ready ok.1, Option.bind_eq_bind, Option.bind_some, Option.pure_def]
    · intro j small
      rw [byteLane_le32 small, fetchedByte, if_pos (by omega), Nat.add_assoc]
  · rw [if_neg inside]
    have first : FetchOk 2 pages a c := ⟨ok.1, fun _ => ok.2 (by omega)⟩
    obtain ⟨again, bytes⟩ := @second_word pages host a c (by omega) ok.1 first
    obtain ⟨lo, low, lowBytes⟩ := @fastreadw_ok pages host a c first
    obtain ⟨hi, high, highBytes⟩ :=
      @fastreadw_ok pages host (a + 2) (cacheAfterWord pages a c) (again.mpr ok)
    refine ⟨lo.setWidth 32 ||| hi.setWidth 32 <<< 16,
      cacheAfterWord pages (a + 2) (cacheAfterWord pages a c), ?_, ?_⟩
    · simp only [low, high, Option.bind_eq_bind, Option.bind_some, Option.pure_def]
    · intro j small
      rw [byteLane_joinWords small]
      by_cases front : j < 2
      · rw [if_pos front, lowBytes j front]
      · rw [if_neg front, highBytes (j - 2) (by omega), bytes (j - 2) (by omega),
          Nat.sub_add_cancel (by omega)]

theorem fastreadl_fault (fault : ¬FetchOk 4 pages a c) : fastreadl pages host a c = none := by
  have bound := pageOffset_lt a
  unfold fastreadl
  by_cases inside : pageOffset a < 0xffd
  · have fault' : ¬PageReady pages c (codePage a) := fun ready =>
      fault ⟨ready, fun over_ => absurd over_ (by omega)⟩
    rw [if_pos inside, fetchPage_fault fault']
    rfl
  · rw [if_neg inside]
    by_cases first : FetchOk 2 pages a c
    · obtain ⟨again, -⟩ := @second_word pages host a c (by omega) first.1 first
      obtain ⟨lo, low, -⟩ := @fastreadw_ok pages host a c first
      have second := @fastreadw_fault pages host (a + 2) (cacheAfterWord pages a c)
        fun ok => fault (again.mp ok)
      simp only [low, second, Option.bind_eq_bind, Option.bind_some, Option.bind_none]
    · rw [fastreadw_fault first]
      rfl

end Fetched

/-! ## Registers -/

/-- The bytes of a view. -/
def IregSize.bytes : IregSize → Nat
  | .l => 4
  | .w => 2
  | .b => 1
  | .bh => 1

section Registers

variable {regs : IRegs} {r : Ireg} {v : BitVec 32}

theorem byteLane_mask {s : IregSize} (whole : s ≠ .bh) {j : Nat} (inside : j < 4) :
    byteLane (match s with
      | .l => v
      | .w => v &&& 0xffff
      | .b => v &&& 0xff
      | .bh => v >>> 8 &&& 0xff) j = if j < s.bytes then byteLane v j else 0 := by
  have ones (x : BitVec 8) : x &&& 0xff = x := BitVec.and_allOnes
  have zeros (x : BitVec 8) : x &&& 0 = 0 := BitVec.and_zero
  cases s with
  | l => rw [if_pos (show j < IregSize.bytes .l from inside)]
  | w =>
    dsimp only
    rw [byteLane_and]
    have lane : byteLane (0xffff : BitVec 32) j = if j < 2 then 0xff else 0 := by
      revert j
      decide
    rw [lane]
    by_cases low : j < 2
    · rw [if_pos low, if_pos (show j < IregSize.bytes .w from low), ones]
    · rw [if_neg low, if_neg (show ¬j < IregSize.bytes .w from low), zeros]
  | b =>
    dsimp only
    rw [byteLane_and]
    have lane : byteLane (0xff : BitVec 32) j = if j < 1 then 0xff else 0 := by
      revert j
      decide
    rw [lane]
    by_cases low : j < 1
    · rw [if_pos low, if_pos (show j < IregSize.bytes .b from low), ones]
    · rw [if_neg low, if_neg (show ¬j < IregSize.bytes .b from low), zeros]
  | bh => exact absurd rfl whole

theorem byteLane_src (whole : r.size ≠ .bh) {j : Nat} (inside : j < 4) :
    byteLane (regs.src r) j = if j < r.size.bytes then byteLane (regs r.reg) j else 0 :=
  byteLane_mask whole inside

theorem set_self (reg : Nat) : regs.set reg v reg = v := if_pos rfl

theorem set_of_ne {reg other : Nat} (apart : other ≠ reg) : regs.set reg v other = regs other :=
  if_neg apart

/-- A write into a view, byte by byte. -/
theorem byteLane_dst (whole : r.size ≠ .bh) {j : Nat} (inside : j < 4) :
    byteLane (regs.dst r v r.reg) j =
      if j < r.size.bytes then byteLane v j else byteLane (regs r.reg) j := by
  have ones (x : BitVec 8) : x &&& 0xff = x := BitVec.and_allOnes
  have zeros (x : BitVec 8) : x &&& 0 = 0 := BitVec.and_zero
  unfold IRegs.dst
  cases size : r.size with
  | l =>
    dsimp only
    rw [set_self, if_pos (show j < IregSize.bytes .l from inside)]
  | w =>
    dsimp only
    have low : byteLane (0xffff : BitVec 32) j = if j < 2 then 0xff else 0 := by
      revert j
      decide
    have high : byteLane (0xffff0000 : BitVec 32) j = if j < 2 then 0 else 0xff := by
      revert j
      decide
    rw [set_self, byteLane_or, byteLane_and, byteLane_and, low, high]
    by_cases first : j < 2
    · rw [if_pos first, if_pos first, if_pos (show j < IregSize.bytes .w from first), ones, zeros]
      exact BitVec.or_zero
    · rw [if_neg first, if_neg first, if_neg (show ¬j < IregSize.bytes .w from first), ones, zeros]
      exact BitVec.zero_or
  | b =>
    dsimp only
    have low : byteLane (0xff : BitVec 32) j = if j < 1 then 0xff else 0 := by
      revert j
      decide
    have high : byteLane (0xffffff00 : BitVec 32) j = if j < 1 then 0 else 0xff := by
      revert j
      decide
    rw [set_self, byteLane_or, byteLane_and, byteLane_and, low, high]
    by_cases first : j < 1
    · rw [if_pos first, if_pos first, if_pos (show j < IregSize.bytes .b from first), ones, zeros]
      exact BitVec.or_zero
    · rw [if_neg first, if_neg first, if_neg (show ¬j < IregSize.bytes .b from first), ones, zeros]
      exact BitVec.zero_or
  | bh => exact absurd size whole

theorem dst_of_ne {other : Nat} (apart : other ≠ r.reg) : regs.dst r v other = regs other := by
  unfold IRegs.dst
  cases r.size <;> exact set_of_ne apart

/-- The view of what was written into it. -/
theorem byteLane_src_dst (whole : r.size ≠ .bh) {j : Nat} (inside : j < 4) :
    byteLane ((regs.dst r v).src r) j = if j < r.size.bytes then byteLane v j else 0 := by
  rw [byteLane_src whole inside, byteLane_dst whole inside]
  by_cases low : j < r.size.bytes
  · rw [if_pos low, if_pos low, if_pos low]
  · rw [if_neg low, if_neg low]

end Registers

/-! ## The loads -/

section Loads

variable {host : Nat → BitVec 8} {regs : IRegs} {dest : Ireg} {p q : Nat}

theorem exec_movzxRegPtr8 (takes : dest.size ≠ .bh) :
    ImmUop.exec host regs (.movzxRegPtr8 dest p) =
      some (regs.dst dest ((host p).setWidth 32)) := by
  obtain ⟨reg, size⟩ := dest
  cases size with
  | l => rfl
  | w => rfl
  | b => rfl
  | bh => exact absurd rfl takes

theorem exec_movzxRegPtr16 (takes : dest.size = .l ∨ dest.size = .w) :
    ImmUop.exec host regs (.movzxRegPtr16 dest p) =
      some (regs.dst dest ((le16 host p).setWidth 32)) := by
  obtain ⟨reg, size⟩ := dest
  obtain rfl | rfl : size = .l ∨ size = .w := takes
  · rfl
  · rfl

theorem exec_movRegPtr (takes : dest.size = .l) :
    ImmUop.exec host regs (.movRegPtr dest p) = some (regs.dst dest (le32 host p)) := by
  obtain ⟨reg, size⟩ := dest
  obtain rfl : size = .l := takes
  rfl

/-- A byte. -/
theorem run_byte (takes : dest.size ≠ .bh) : ∃ regs',
    runUops host [.movzxRegPtr8 dest p] regs = some regs' ∧
      ∀ j < 4, byteLane (regs'.src dest) j = if j = 0 then host p else 0 := by
  refine ⟨_, by rw [runUops, exec_movzxRegPtr8 takes]; rfl, fun j inside => ?_⟩
  rw [byteLane_src_dst takes inside, byteLane_setWidth (by omega)]
  have some_ : 0 < dest.size.bytes := by cases dest.size <;> decide
  by_cases first : j = 0
  · rw [if_pos first, first, if_pos some_, byteLane_self]
  · rw [if_neg first, byteLane_of_ge (by omega)]
    exact ite_self _

theorem bytes_of_word (takes : dest.size = .l ∨ dest.size = .w) :
    dest.size ≠ .bh ∧ 2 ≤ dest.size.bytes := by
  rcases takes with size | size <;> rw [size] <;> decide

/-- A word in one page. -/
theorem run_word (takes : dest.size = .l ∨ dest.size = .w) : ∃ regs',
    runUops host [.movzxRegPtr16 dest p] regs = some regs' ∧
      ∀ j < 4, byteLane (regs'.src dest) j = if j < 2 then host (p + j) else 0 := by
  obtain ⟨whole, two⟩ := bytes_of_word takes
  refine ⟨_, by rw [runUops, exec_movzxRegPtr16 takes]; rfl, fun j inside => ?_⟩
  rw [byteLane_src_dst whole inside, byteLane_setWidth (by omega)]
  by_cases low : j < 2
  · rw [if_pos low, if_pos (by omega), byteLane_le16 low]
  · rw [if_neg low, byteLane_of_ge (by omega)]
    exact ite_self _

/-- A double word in one page. -/
theorem run_dword (takes : dest.size = .l) : ∃ regs',
    runUops host [.movRegPtr dest p] regs = some regs' ∧
      ∀ j < 4, byteLane (regs'.src dest) j = host (p + j) := by
  have whole : dest.size ≠ .bh := by rw [takes]; decide
  refine ⟨_, by rw [runUops, exec_movRegPtr takes]; rfl, fun j inside => ?_⟩
  rw [byteLane_src_dst whole inside, takes, if_pos (show j < IregSize.bytes .l from inside),
    byteLane_le32 inside]

theorem runUops_cons {uop : ImmUop} {uops : List ImmUop} {regs' : IRegs}
    (done : uop.exec host regs = some regs') :
    runUops host (uop :: uops) regs = runUops host uops regs' := by
  rw [runUops, done]
  rfl

theorem exec_shlImm {src : Ireg} {imm : Nat} (same : dest.size = src.size)
    (whole : src.size ≠ .bh) : ImmUop.exec host regs (.shlImm dest src imm) =
      some (regs.dst dest (regs src.reg <<< (imm % 32))) := by
  change (if _ then some (regs.dst dest ((if _ then _ else _) <<< _)) else _) = _
  rw [if_pos same, if_neg whole]

theorem exec_shrImm {src : Ireg} {imm : Nat} (same : dest.size = src.size) :
    ImmUop.exec host regs (.shrImm dest src imm) =
      some (regs.dst dest (regs.src src >>> (imm % 32))) := if_pos same

/-- A word that crosses: the byte at `p`, which is read first, ends above the byte at `q`. -/
theorem run_word_unaligned (takes : dest.size = .l ∨ dest.size = .w) (apart : dest.reg ≠ 36) :
    ∃ regs',
      runUops host [.movzxRegPtr8 IREG_temp3_W p, .movzxRegPtr8 dest q,
        .shlImm IREG_temp3_W IREG_temp3_W 8, .or dest dest IREG_temp3_W] regs = some regs' ∧
      ∀ j < 4, byteLane (regs'.src dest) j =
        if j = 0 then host q else if j = 1 then host p else 0 := by
  obtain ⟨whole, two⟩ := bytes_of_word takes
  have scratch : IREG_temp3_W.size ≠ .bh := by decide
  have other : (36 : Nat) ≠ dest.reg := fun same => apart same.symm
  obtain ⟨r1, e1⟩ : ∃ r1, r1 = regs.dst IREG_temp3_W ((host p).setWidth 32) := ⟨_, rfl⟩
  obtain ⟨r2, e2⟩ : ∃ r2, r2 = r1.dst dest ((host q).setWidth 32) := ⟨_, rfl⟩
  obtain ⟨r3, e3⟩ : ∃ r3, r3 = r2.dst IREG_temp3_W (r2 36 <<< (8 * 1)) := ⟨_, rfl⟩
  refine ⟨r3.dst dest (r3.src dest ||| r3.src IREG_temp3_W), ?_, fun j inside => ?_⟩
  · rw [runUops_cons (exec_movzxRegPtr8 scratch), ← e1, runUops_cons
      (exec_movzxRegPtr8 whole), ← e2,
      runUops_cons (exec_shlImm rfl scratch)]
    change runUops host _ (r2.dst IREG_temp3_W (r2 36 <<< (8 * 1))) = _
    rw [← e3]
    rfl
  · have first : byteLane (r3.src IREG_temp3_W) j = if j = 1 then host p else 0 := by
      rw [e3, byteLane_src_dst scratch inside, byteLane_shiftLeft
        (by omega), e2, dst_of_ne other, e1]
      by_cases low : j < 2
      · rw [if_pos (show j < IREG_temp3_W.size.bytes from low)]
        by_cases zero : j < 1
        · rw [if_pos zero, if_neg (by omega)]
        · rw [if_neg zero, if_pos (by omega), show j - 1 = 0 by omega]
          have lane := @byteLane_dst regs IREG_temp3_W ((host p).setWidth 32) scratch 0 (by omega)
          rw [if_pos (by decide), byteLane_setWidth (by omega), byteLane_self] at lane
          exact lane
      · rw [if_neg (show ¬j < IREG_temp3_W.size.bytes from low), if_neg (by omega)]
    have second : byteLane (r3.src dest) j = if j = 0 then host q else 0 := by
      rw [byteLane_src whole inside, e3, dst_of_ne apart, e2]
      by_cases low : j < dest.size.bytes
      · rw [if_pos low, byteLane_dst whole inside, if_pos low, byteLane_setWidth (by omega)]
        by_cases zero : j = 0
        · rw [if_pos zero, zero, byteLane_self]
        · rw [if_neg zero, byteLane_of_ge (by omega)]
      · rw [if_neg low, if_neg (by omega)]
    rw [byteLane_src_dst whole inside, byteLane_or, first, second]
    by_cases zero : j = 0
    · rw [if_pos (show j < dest.size.bytes by omega), if_neg (show ¬j = 1 by omega), if_pos zero]
      exact BitVec.or_zero
    · rw [if_neg zero, if_neg zero]
      by_cases one : j = 1
      · rw [if_pos one, if_pos (show j < dest.size.bytes by omega)]
        exact BitVec.zero_or
      · rw [if_neg one]
        exact ite_self _

/-- A double word that crosses: the bytes from `k` on at `p`, and the others at `q`. -/
theorem run_dword_unaligned (takes : dest.size = .l) (apart : dest.reg ≠ 36) {k : Nat}
    (some_ : 0 < k) (most : k < 4) :
    ∃ regs',
      runUops host [.movRegPtr dest p, .movRegPtr IREG_temp3 q, .shrImm dest dest (k * 8),
        .shlImm IREG_temp3 IREG_temp3 ((4 - k) * 8), .or dest dest IREG_temp3] regs = some regs' ∧
      ∀ j < 4, byteLane (regs'.src dest) j =
        if j + k < 4 then host (p + (j + k)) else host (q + (j + k - 4)) := by
  have whole : dest.size ≠ .bh := by rw [takes]; decide
  have four : dest.size.bytes = 4 := by rw [takes]; rfl
  have scratch : IREG_temp3.size ≠ .bh := by decide
  have other : (36 : Nat) ≠ dest.reg := fun same => apart same.symm
  obtain ⟨r1, e1⟩ : ∃ r1, r1 = regs.dst dest (le32 host p) := ⟨_, rfl⟩
  obtain ⟨r2, e2⟩ : ∃ r2, r2 = r1.dst IREG_temp3 (le32 host q) := ⟨_, rfl⟩
  obtain ⟨r3, e3⟩ : ∃ r3, r3 = r2.dst dest (r2.src dest >>> (8 * k)) := ⟨_, rfl⟩
  obtain ⟨r4, e4⟩ : ∃ r4, r4 = r3.dst IREG_temp3 (r3 36 <<< (8 * (4 - k))) := ⟨_, rfl⟩
  refine ⟨r4.dst dest (r4.src dest ||| r4.src IREG_temp3), ?_, fun j inside => ?_⟩
  · rw [runUops_cons (exec_movRegPtr takes), ← e1, runUops_cons (exec_movRegPtr rfl), ← e2,
      runUops_cons (exec_shrImm rfl), show k * 8 % 32 = 8 * k by omega, ← e3,
      runUops_cons (exec_shlImm rfl scratch), show (4 - k) * 8 % 32 = 8 * (4 - k) by omega]
    change runUops host _ (r3.dst IREG_temp3 (r3 36 <<< (8 * (4 - k)))) = _
    rw [← e4]
    rfl
  · have first : byteLane (r4.src IREG_temp3) j =
        if j + k < 4 then 0 else host (q + (j + k - 4)) := by
      rw [e4, byteLane_src_dst scratch inside, if_pos (show j < IREG_temp3.size.bytes from inside),
        byteLane_shiftLeft (by omega), e3, dst_of_ne other, e2]
      by_cases low : j + k < 4
      · rw [if_pos low, if_pos (by omega)]
      · have lane := @byteLane_dst r1 IREG_temp3 (le32 host q) scratch (j - (4 - k)) (by omega)
        rw [if_pos (show j - (4 - k) < IREG_temp3.size.bytes by change _ < 4; omega),
          byteLane_le32 (by omega)] at lane
        rw [if_neg low, if_neg (by omega), show j + k - 4 = j - (4 - k) by omega]
        exact lane
    have second : byteLane (r4.src dest) j = if j + k < 4 then host (p + (j + k)) else 0 := by
      rw [byteLane_src whole inside, four, if_pos inside, e4, dst_of_ne apart, e3,
        byteLane_dst whole inside, four, if_pos inside, byteLane_shiftRight, Nat.add_comm k j]
      by_cases low : j + k < 4
      · rw [if_pos low, byteLane_src whole low, four, if_pos low, e2, dst_of_ne apart, e1,
          byteLane_dst whole low, four, if_pos low, byteLane_le32 low]
      · rw [if_neg low, byteLane_of_ge (by omega)]
    rw [byteLane_src_dst whole inside, four, if_pos inside, byteLane_or, first, second]
    by_cases low : j + k < 4
    · rw [if_pos low, if_pos low, if_pos low]
      exact BitVec.or_zero
    · rw [if_neg low, if_neg low, if_neg low]
      exact BitVec.zero_or

end Loads

/-! ## Comparison -/

section Compare

variable {pages : CodePages} {host : Nat → BitVec 8} {addr : BitVec 32} {c : PcCache}

/-- Two words of which each is known byte by byte. -/
theorem eq_iff_bytes {x y : BitVec 32} {f g : Nat → BitVec 8} (left : ∀ j < 4, byteLane x j = f j)
    (right : ∀ j < 4, byteLane y j = g j) : x = y ↔ ∀ j < 4, f j = g j := by
  constructor
  · rintro rfl j inside
    rw [← left j inside, right j inside]
  · intro same
    refine eq_of_byteLane fun j inside => ?_
    rw [left j (by omega), right j (by omega), same j (by omega)]

/-- A load whose outcome is known, against a fetch that succeeds. -/
theorem immediateExact_of {n : ImmSize} {dest : ImmDest n} {v : BitVec 32} {f g : Nat → BitVec 8}
    (fetched : n.fastread pages host addr c = some v) (right : ∀ j < 4, byteLane v j = g j)
    (loaded : ∀ regs, ∃ regs', runUops host (n.load pages c dest.ireg addr) regs = some regs' ∧
      ∀ j < 4, byteLane (regs'.src dest.ireg) j = f j) :
    ImmediateExact n pages c host dest addr ↔ ∀ j < 4, f j = g j := by
  unfold ImmediateExact
  rw [fetched]
  constructor
  · intro exact_
    obtain ⟨regs', run, value⟩ := exact_ v rfl fun _ => 0
    obtain ⟨regs2, run2, left⟩ := loaded fun _ => 0
    obtain rfl := Option.some.inj (run.symm.trans run2)
    exact (eq_iff_bytes left right).mp value
  · rintro same _ ⟨⟩ regs
    obtain ⟨regs', run, left⟩ := loaded regs
    exact ⟨regs', run, (eq_iff_bytes left right).mpr same⟩

theorem immediateExact_of_fault {n : ImmSize} {dest : ImmDest n}
    (fault : n.fastread pages host addr c = none) : ImmediateExact n pages c host dest addr := by
  intro v fetched
  rw [fault] at fetched
  cases fetched

theorem getRamPtr_eq (a : BitVec 32) :
    getRamPtr pages c a = pageBase pages c (codePage a) + pageOffset a := rfl

theorem immediate_byte (dest : ImmDest .byte) : ImmediateExact .byte pages c host dest addr := by
  by_cases ready : PageReady pages c (codePage addr)
  · have fetched : ImmSize.fastread .byte pages host addr c =
        some ((host (pageBase pages c (codePage addr) + pageOffset addr)).setWidth 32) := by
      simp only [ImmSize.fastread, fastreadb, fetchPage_ready ready, Option.bind_eq_bind,
        Option.bind_some, Option.pure_def, Option.map_some]
    refine (immediateExact_of fetched
      (g := fun j => if j = 0 then host (getRamPtr pages c addr) else 0) (fun j inside => ?_)
      fun regs => run_byte dest.takes).mpr fun _ _ => rfl
    rw [byteLane_setWidth (by omega), getRamPtr_eq]
    by_cases first : j = 0
    · rw [if_pos first, first, byteLane_self]
    · rw [if_neg first, byteLane_of_ge (by omega)]
  · refine immediateExact_of_fault ?_
    simp only [ImmSize.fastread, fastreadb, fetchPage_fault ready, Option.bind_eq_bind,
      Option.bind_none, Option.map_none]

theorem fetched_word {v : BitVec 16} {c' : PcCache}
    (fetched : fastreadw pages host addr c = some (v, c')) :
    ImmSize.fastread .word pages host addr c = some (v.setWidth 32) := by
  rw [ImmSize.fastread, fetched, Option.map_some]

theorem immediate_word (dest : ImmDest .word) :
    ImmediateExact .word pages c host dest addr ↔ SameBytes .word pages c host addr := by
  have bound := pageOffset_lt addr
  by_cases ok : FetchOk 2 pages addr c
  · obtain ⟨v, fetched, bytes⟩ := @fastreadw_ok pages host addr c ok
    have right : ∀ j < 4, byteLane (v.setWidth 32) j =
        if j < 2 then fetchedByte pages host addr c j else 0 := by
      intro j inside
      rw [byteLane_setWidth (by omega)]
      by_cases low : j < 2
      · rw [if_pos low, bytes j low]
      · rw [if_neg low, byteLane_of_ge (by omega)]
    by_cases last : pageOffset addr = 0xfff
    · obtain ⟨page, offset⟩ := @page_next addr 1 (by omega) (by omega)
      change codePage (addr + 1) = codePage addr + 1 at page
      change pageOffset (addr + 1) = pageOffset addr + 1 - 4096 at offset
      have loaded : ∀ regs, ∃ regs',
          runUops host (ImmSize.load .word pages c dest.ireg addr) regs = some regs' ∧
            ∀ j < 4, byteLane (regs'.src dest.ireg) j =
              if j = 0 then host (getRamPtr pages c (addr + 1))
              else if j = 1 then host (getRamPtr pages c addr) else 0 := by
        intro regs
        have emitted : ImmSize.load .word pages c dest.ireg addr =
          loadImmediateFromRam16Unaligned pages c dest.ireg addr := if_pos last
        rw [emitted]
        exact run_word_unaligned dest.takes dest.apart
      have first : fetchedByte pages host addr c 0 =
          host (pageBase pages c (codePage addr) + 4095) := by
        rw [fetchedByte, if_pos (by omega), last]
      have second : fetchedByte pages host addr c 1 = host (pages.base (codePage addr + 1)) := by
        rw [fetchedByte, if_neg (by omega), last, show 4095 + 1 - 4096 = 0 from rfl, Nat.add_zero]
      have low : getRamPtr pages c addr = pageBase pages c (codePage addr) + 4095 := by
        rw [getRamPtr_eq, last]
      have high : getRamPtr pages c (addr + 1) = pageBase pages c (codePage addr + 1) := by
        rw [getRamPtr_eq, page, offset, last, show 4095 + 1 - 4096 = 0 from rfl, Nat.add_zero]
      rw [immediateExact_of (fetched_word fetched) right loaded, low, high]
      unfold SameBytes
      constructor
      · intro same _
        have zero := same 0 (by decide)
        have one := same 1 (by decide)
        rw [if_pos rfl, if_pos (by decide), first] at zero
        rw [if_neg (by decide), if_pos rfl, if_pos (by decide), second] at one
        exact ⟨zero.symm, one⟩
      · intro same j inside
        obtain ⟨zero, one⟩ := same ⟨by omega, ok.1, ok.2 (by omega)⟩
        match j with
        | 0 => rw [if_pos rfl, if_pos (by decide), first, zero]
        | 1 => rw [if_neg (by decide), if_pos rfl, if_pos (by decide), second, one]
        | j + 2 => rw [if_neg (by omega), if_neg (by omega), if_neg (by omega)]
    · have loaded : ∀ regs, ∃ regs',
          runUops host (ImmSize.load .word pages c dest.ireg addr) regs = some regs' ∧
            ∀ j < 4, byteLane (regs'.src dest.ireg) j =
              if j < 2 then host (getRamPtr pages c addr + j) else 0 := by
        intro regs
        have emitted : ImmSize.load .word pages c dest.ireg addr =
          [.movzxRegPtr16 dest.ireg (getRamPtr pages c addr)] := if_neg last
        rw [emitted]
        exact run_word dest.takes
      refine iff_of_true ?_ fun crosses => absurd crosses.1 (by omega)
      refine (immediateExact_of (fetched_word fetched) right loaded).mpr fun j inside => ?_
      by_cases low : j < 2
      · rw [if_pos low, if_pos low, fetchedByte, if_pos (by omega), getRamPtr_eq, Nat.add_assoc]
      · rw [if_neg low, if_neg low]
  · refine iff_of_true (immediateExact_of_fault ?_) fun crosses =>
      absurd ⟨crosses.2.1, fun _ => crosses.2.2⟩ ok
    rw [ImmSize.fastread, fastreadw_fault ok, Option.map_none]

/-- Byte `j` of a load of a double word: from the page of the address or from the next one. -/
def loadedByte (pages : CodePages) (host : Nat → BitVec 8) (a : BitVec 32) (c : PcCache)
    (j : Nat) : BitVec 8 :=
  if pageOffset a + j < 4096 then host (pageBase pages c (codePage a) + (pageOffset a + j))
  else host (pageBase pages c (codePage a + 1) + (pageOffset a + j - 4096))

/-- A double word over two pages is put together from the aligned ones on either side. -/
theorem loaded_dword (dest : ImmDest .dword) (regs : IRegs) : ∃ regs',
    runUops host (ImmSize.load .dword pages c dest.ireg addr) regs = some regs' ∧
      ∀ j < 4, byteLane (regs'.src dest.ireg) j = loadedByte pages host addr c j := by
  have bound := pageOffset_lt addr
  by_cases crosses : 0xffd ≤ pageOffset addr
  · obtain ⟨k, offset, some_, most⟩ : ∃ k, pageOffset addr = 4092 + k ∧ 0 < k ∧ k < 4 :=
      ⟨pageOffset addr - 4092, by omega, by omega, by omega⟩
    have lane : (addr &&& 3).toNat = k := by
      rw [toNat_and_three]
      unfold pageOffset at offset
      omega
    have low : getRamPtr pages c (addr &&& ~~~(3 : BitVec 32)) =
        pageBase pages c (codePage addr) + 4092 := by
      have page : codePage (addr &&& ~~~(3 : BitVec 32)) = codePage addr := by
        refine BitVec.eq_of_toNat_eq ?_
        rw [toNat_codePage, toNat_codePage, toNat_align]
        omega
      rw [getRamPtr_eq, page]
      unfold pageOffset at offset ⊢
      rw [toNat_align]
      omega
    have high : getRamPtr pages c ((addr + 4) &&& ~~~(3 : BitVec 32)) =
        pageBase pages c (codePage addr + 1) := by
      obtain ⟨next, place⟩ := @page_next addr 4 (by omega) (by omega)
      change codePage (addr + 4) = codePage addr + 1 at next
      change pageOffset (addr + 4) = pageOffset addr + 4 - 4096 at place
      have page : codePage ((addr + 4) &&& ~~~(3 : BitVec 32)) = codePage addr + 1 := by
        rw [← next]
        refine BitVec.eq_of_toNat_eq ?_
        rw [toNat_codePage, toNat_codePage, toNat_align]
        omega
      rw [getRamPtr_eq, page]
      unfold pageOffset at place offset ⊢
      rw [toNat_align]
      omega
    have emitted : ImmSize.load .dword pages c dest.ireg addr =
      loadImmediateFromRam32Unaligned pages c dest.ireg addr := if_pos crosses
    rw [emitted, loadImmediateFromRam32Unaligned, low, high, lane]
    obtain ⟨regs', run, bytes⟩ := run_dword_unaligned dest.takes dest.apart some_ most
    refine ⟨regs', run, fun j inside => ?_⟩
    rw [bytes j inside, loadedByte]
    by_cases front : j + k < 4
    · rw [if_pos front, if_pos (by omega), offset, Nat.add_assoc,
        show 4092 + (j + k) = 4092 + k + j by omega]
    · rw [if_neg front, if_neg (by omega),
        show j + k - 4 = pageOffset addr + j - 4096 by omega]
  · have emitted : ImmSize.load .dword pages c dest.ireg addr =
      [.movRegPtr dest.ireg (getRamPtr pages c addr)] := if_neg crosses
    rw [emitted]
    obtain ⟨regs', run, bytes⟩ := run_dword dest.takes
    refine ⟨regs', run, fun j inside => ?_⟩
    rw [bytes j inside, loadedByte, if_pos (by omega), getRamPtr_eq, Nat.add_assoc]

theorem immediate_dword (dest : ImmDest .dword) :
    ImmediateExact .dword pages c host dest addr ↔ SameBytes .dword pages c host addr := by
  have bound := pageOffset_lt addr
  by_cases ok : FetchOk 4 pages addr c
  · obtain ⟨v, c', fetched, right⟩ := @fastreadl_ok pages host addr c ok
    have value : ImmSize.fastread .dword pages host addr c = some v := by
      rw [ImmSize.fastread, fetched, Option.map_some]
    rw [immediateExact_of value right (loaded_dword dest)]
    unfold SameBytes loadedByte fetchedByte
    constructor
    · intro same crosses j inside
      have last := same (j + (4096 - pageOffset addr)) (by omega)
      rw [if_neg (by omega), if_neg (by omega),
        show pageOffset addr + (j + (4096 - pageOffset addr)) - 4096 = j by omega] at last
      exact last
    · intro same j inside
      rcases Nat.lt_or_ge (pageOffset addr + j) 4096 with first | second
      · rw [if_pos first, if_pos first]
      · rw [if_neg (Nat.not_lt_of_le second), if_neg (Nat.not_lt_of_le second)]
        exact same ⟨by omega, ok.1, ok.2 (by omega)⟩ _ (by omega)
  · refine iff_of_true (immediateExact_of_fault ?_) fun crosses =>
      absurd ⟨crosses.2.1, fun _ => crosses.2.2⟩ ok
    rw [ImmSize.fastread, fastreadl_fault ok, Option.map_none]

end Compare

/-- Every load of an immediate, at every address, over every memory and mapping: it leaves the value
that the code fetch reads exactly when a word does not end a page, or its bytes agree, and the
next page of a double word that crosses is not cached under another address. -/
theorem immediateExact_iff (n : ImmSize) (pages : CodePages) (c : PcCache)
    (host : Nat → BitVec 8) (dest : ImmDest n) (addr : BitVec 32) :
    ImmediateExact n pages c host dest addr ↔ SameBytes n pages c host addr := by
  cases n with
  | byte => exact iff_of_true (immediate_byte dest) trivial
  | word => exact immediate_word dest
  | dword => exact immediate_dword dest

/-- The word 0x3412 over two pages: the load leaves 0x1234. -/
theorem not_immediateExact_swapped :
    ¬ImmediateExact .word ⟨fun page => page.toNat * 8192, fun _ => false⟩ none
      (fun p => if p = 4095 then 0x12 else if p = 8192 then 0x34 else 0)
      ⟨⟨33, .w⟩, .inr rfl, by decide⟩ 0xfff := by
  intro exact_
  obtain ⟨regs', run, value⟩ := exact_ 0x3412 rfl fun _ => 0
  cases run
  exact absurd value (by decide)

end PCemWeb
