import Posta.Js.IpAddress
import Mathlib.Data.List.Basic

/-!
# Which addresses are looked up

The lookup asks its databases about public addresses only. The check for that reads the text of
an address: the octets of an IPv4 address, the leading group of an IPv6 address, and one spelling
of the IPv6 loopback address.

**Theorem (`isLookupableAddress_iff`).** The check is right about every spelling of every address
but two kinds: an IPv4-mapped IPv6 address whose IPv4 address is private, and the loopback address
`::1` in any other spelling.

**Theorem (`isLookupableAddress_spec`).** So for all that `isIP` accepts; and two spellings of one
address get different answers only where one of them is `::1` and the other is not.
-/

namespace Posta

open Js Js.Ip

/-! ## The check -/

/-- `Number(octet)` of the parts; a part that is missing is `-1`. -/
def leadingOctets (ip : JsString) : Int × Int :=
  let numbers := (ip.splitOn (unit '.')).map fun part => (natValue part : Int)
  (numbers.getD 0 (-1), numbers.getD 1 (-1))

def isPrivateOrReservedIPv4 (ip : JsString) : Bool :=
  let (first, second) := leadingOctets ip
  first == 127 || first == 10 || (first == 172 && 16 ≤ second && second ≤ 31) ||
    (first == 192 && second == 168) || (first == 169 && second == 254)

/-- `Number.parseInt(text, 16)` of a text without sign, white space or `0x`; `none` for `NaN`. -/
def parseHex (text : JsString) : Option Nat :=
  let digits := text.takeWhile fun c => (hexValue c).isSome
  if digits = [] then none else hexNumber digits

def firstHextetValue (ip : JsString) : Option Nat :=
  if lit "::" <+: ip then some 0 else parseHex (ip.takeWhile (· ≠ unit ':'))

/-- The text is one that `isIP` accepts, so that its lower case is that of ASCII. -/
def isPrivateOrReservedIPv6 (ip : JsString) : Bool :=
  let normalized := ip.map asciiLower
  if normalized = lit "::1" then true
  else
    match firstHextetValue normalized with
    | none => false
    | some value => (0xfc00 ≤ value && value ≤ 0xfdff) || (0xfe80 ≤ value && value ≤ 0xfebf)

def isLookupableAddress (ip : JsString) : Bool :=
  let version := isIP ip
  if version = 0 then false
  else if version = 4 then !isPrivateOrReservedIPv4 ip
  else !isPrivateOrReservedIPv6 ip

/-! ## Private addresses -/

/-- Loopback, private and link-local: `127.0.0.0/8`, `10.0.0.0/8`, `172.16.0.0/12`,
`192.168.0.0/16` and `169.254.0.0/16`. -/
def privateBlocksIPv4 : List Block :=
  [⟨0x7f000000, 8⟩, ⟨0x0a000000, 8⟩, ⟨0xac100000, 12⟩, ⟨0xc0a80000, 16⟩, ⟨0xa9fe0000, 16⟩]

/-- Loopback, unique local and link-local: `::1/128`, `fc00::/7` and `fe80::/10`. -/
def privateBlocksIPv6 : List Block :=
  [⟨1, 128⟩, ⟨0xfc00 * 2 ^ 112, 7⟩, ⟨0xfe80 * 2 ^ 112, 10⟩]

def isPrivateIPv4 (n : Nat) : Bool := privateBlocksIPv4.any fun b => b.contains 32 n

/-- `::ffff:0:0/96`. -/
def isMappedIPv4 (n : Nat) : Bool := (⟨0xffff * 2 ^ 32, 96⟩ : Block).contains 128 n

/-- A mapped address is judged by its IPv4 address. -/
def isPrivateAddress : Address → Bool
  | .v4 n => isPrivateIPv4 n
  | .v6 n =>
    if isMappedIPv4 n then isPrivateIPv4 (n % 2 ^ 32)
    else privateBlocksIPv6.any fun b => b.contains 128 n

theorem isPrivateIPv4_iff {a b c d : Nat} (hb : b < 256) (hc : c < 256) (hd : d < 256) :
    isPrivateIPv4 (((256 * a + b) * 256 + c) * 256 + d) = true ↔
      a = 127 ∨ a = 10 ∨ (a = 172 ∧ 16 ≤ b ∧ b ≤ 31) ∨ (a = 192 ∧ b = 168) ∨
        (a = 169 ∧ b = 254) := by
  simp only [isPrivateIPv4, privateBlocksIPv4, Block.contains, List.any_cons, List.any_nil,
    Bool.or_false, Bool.or_eq_true, beq_iff_eq]
  norm_num
  omega

theorem leadingOctets_eq {ip : JsString} {a b c d : Nat} (h : octets ip = some (a, b, c, d)) :
    leadingOctets ip = ((a : Int), (b : Int)) := by
  obtain ⟨s₁, s₂, s₃, s₄, hs, ha, hb, -, -⟩ := octets_eq_some h
  rw [leadingOctets, hs]
  simp [(octet_eq_some ha).1, (octet_eq_some hb).1]

/-- The check of IPv4 addresses is right. -/
theorem isPrivateOrReservedIPv4_eq {ip : JsString} {a b c d : Nat}
    (h : octets ip = some (a, b, c, d)) :
    isPrivateOrReservedIPv4 ip = isPrivateIPv4 (((256 * a + b) * 256 + c) * 256 + d) := by
  obtain ⟨-, hb, hc, hd⟩ := octets_lt h
  rw [Bool.eq_iff_iff, isPrivateIPv4_iff hb hc hd, isPrivateOrReservedIPv4, leadingOctets_eq h]
  simp only [Bool.or_eq_true, Bool.and_eq_true, beq_iff_eq, decide_eq_true_eq]
  omega

/-! ## Groups of an IPv6 address -/

section Groups

variable {a b c d e f g h : Nat}

/-- The leading group lies in `fc00::/7` or in `fe80::/10`. -/
def isPrivateHextet (a : Nat) : Bool :=
  (0xfc00 ≤ a && a ≤ 0xfdff) || (0xfe80 ≤ a && a ≤ 0xfebf)

theorem hextetsValue_eq : hextetsValue [a, b, c, d, e, f, g, h] =
    a * 2 ^ 112 + b * 2 ^ 96 + c * 2 ^ 80 + d * 2 ^ 64 + e * 2 ^ 48 + f * 2 ^ 32 + g * 2 ^ 16 +
      h := by
  simp only [hextetsValue, List.foldl_cons, List.foldl_nil]
  ring

theorem privateBlocksIPv6_iff (hb : b < 65536) (hc : c < 65536) (hd : d < 65536) (he : e < 65536)
    (hf : f < 65536) (hg : g < 65536) (hh : h < 65536) :
    (privateBlocksIPv6.any fun block =>
        block.contains 128 (hextetsValue [a, b, c, d, e, f, g, h])) = true ↔
      hextetsValue [a, b, c, d, e, f, g, h] = 1 ∨ isPrivateHextet a = true := by
  rw [hextetsValue_eq]
  simp only [privateBlocksIPv6, Block.contains, List.any_cons, List.any_nil, isPrivateHextet,
    Bool.or_false, Bool.or_eq_true, Bool.and_eq_true, beq_iff_eq, decide_eq_true_eq]
  norm_num
  omega

theorem isMappedIPv4_first (hb : b < 65536) (hc : c < 65536) (hd : d < 65536) (he : e < 65536)
    (hf : f < 65536) (hg : g < 65536) (hh : h < 65536)
    (hmapped : isMappedIPv4 (hextetsValue [a, b, c, d, e, f, g, h]) = true) :
    a = 0 ∧ hextetsValue [a, b, c, d, e, f, g, h] ≠ 1 := by
  rw [hextetsValue_eq] at hmapped ⊢
  simp only [isMappedIPv4, Block.contains, beq_iff_eq] at hmapped
  norm_num at hmapped
  omega

end Groups

/-! ## Letter case -/

theorem hexValue_lower (c : CodeUnit) : hexValue (asciiLower c) = hexValue c := by
  unfold hexValue
  dsimp only
  rw [asciiLower_spec]
  split_ifs <;> first | rfl | omega

theorem hexNumber_lower (s : JsString) : hexNumber (s.map asciiLower) = hexNumber s := by
  rw [hexNumber, hexNumber, List.foldlM_map]
  simp only [hexValue_lower]

/-- A unit without a lower case of its own. -/
theorem eq_of_lower_eq {c d : CodeUnit} (hd : d.toNat < 65) (h : asciiLower c = d) : c = d := by
  have hspec := asciiLower_spec c
  rw [h] at hspec
  rw [← UInt16.toNat_inj]
  split_ifs at hspec <;> omega

theorem eq_of_map_lower {s t : JsString} (ht : (t.all fun d => d.toNat < 65) = true)
    (h : s.map asciiLower = t) : s = t := by
  induction s generalizing t with
  | nil => exact h
  | cons c s ih =>
    subst h
    rw [List.map_cons, List.all_cons, Bool.and_eq_true, decide_eq_true_eq] at ht
    rw [List.map_cons, ← eq_of_lower_eq ht.1 rfl, ← ih ht.2 rfl]

theorem doubleColon_lower (s : JsString) : lit "::" <+: s.map asciiLower ↔ lit "::" <+: s := by
  constructor
  · rintro ⟨t, ht⟩
    obtain ⟨s₁, s₂, rfl, hs₁, -⟩ := List.map_eq_append_iff.mp ht.symm
    exact ⟨s₂, by rw [eq_of_map_lower (by decide) hs₁]⟩
  · rintro ⟨t, rfl⟩
    exact ⟨t.map asciiLower, by rw [List.map_append]; rfl⟩

theorem takeWhile_lower (s : JsString) :
    (s.map asciiLower).takeWhile (· ≠ unit ':') = (s.takeWhile (· ≠ unit ':')).map asciiLower := by
  rw [List.takeWhile_map]
  congr 2
  funext c
  have hiff : asciiLower c ≠ unit ':' ↔ c ≠ unit ':' := by
    refine not_congr ⟨eq_of_lower_eq (by decide), ?_⟩
    rintro rfl
    rfl
  simp only [Function.comp_apply, hiff]

/-! ## The leading group -/

theorem isSome_of_foldlM_hex {s : JsString} {n m : Nat}
    (h : s.foldlM (fun n c => (hexValue c).map fun d => 16 * n + d) n = some m) :
    ∀ c ∈ s, (hexValue c).isSome := by
  induction s generalizing n with
  | nil =>
    intro c hc
    cases hc
  | cons d s ih =>
    rw [List.foldlM_cons] at h
    obtain ⟨k, hk, h⟩ := Option.bind_eq_some_iff.mp h
    obtain ⟨v, hv, -⟩ := Option.map_eq_some_iff.mp hk
    intro c hc
    rcases List.mem_cons.mp hc with rfl | hc
    · rw [hv]
      rfl
    · exact ih h c hc

theorem parseHex_hextet {s : JsString} {n : Nat} (h : hextet s = some n) :
    parseHex (s.map asciiLower) = some n := by
  rw [hextet] at h
  split at h
  · cases h
  · rename_i hlen
    have hne : s ≠ [] := by
      rintro rfl
      exact hlen rfl
    have hall : (s.map asciiLower).takeWhile (fun c => (hexValue c).isSome) = s.map asciiLower := by
      refine List.takeWhile_eq_self_iff.mpr fun c hc => ?_
      obtain ⟨d, hd, rfl⟩ := List.mem_map.mp hc
      rw [hexValue_lower]
      exact isSome_of_foldlM_hex h d hd
    rw [parseHex, hall, if_neg (by simpa using hne), hexNumber_lower, h]

theorem firstHextetValue_eq {ip : JsString} {n : Nat} {hs : List Nat}
    (h : ipv6 ip = some (n :: hs)) : firstHextetValue (ip.map asciiLower) = some n := by
  obtain ⟨g, rest, heq, hfirst⟩ := ipv6_first h
  obtain ⟨rfl, rfl⟩ := List.cons.inj heq
  rw [firstHextetValue]
  rcases hfirst with ⟨hcolons, rfl⟩ | hgroup
  · exact if_pos ((doubleColon_lower ip).mpr hcolons)
  · rw [if_neg fun hcolons =>
        not_doubleColon_of_hextet hgroup ((doubleColon_lower ip).mp hcolons),
      takeWhile_lower, parseHex_hextet hgroup]

/-- What the check of IPv6 addresses looks at. -/
theorem isPrivateOrReservedIPv6_eq {ip : JsString} {n : Nat} {hs : List Nat}
    (h : ipv6 ip = some (n :: hs)) :
    isPrivateOrReservedIPv6 ip = (decide (ip = lit "::1") || isPrivateHextet n) := by
  have hiff : ip.map asciiLower = lit "::1" ↔ ip = lit "::1" := by
    refine ⟨eq_of_map_lower (by decide), ?_⟩
    rintro rfl
    rfl
  rw [isPrivateOrReservedIPv6]
  simp only [hiff, firstHextetValue_eq h]
  by_cases hip : ip = lit "::1"
  · rw [if_pos hip, decide_eq_true hip, Bool.true_or]
  · rw [if_neg hip, decide_eq_false hip, Bool.false_or, isPrivateHextet]

/-! ## Every spelling of every address -/

/-- The spellings of which the check gives the wrong answer: a mapped private address, and the
loopback address written in another way than `::1`. -/
def IsMisjudged (ip : JsString) : Address → Prop
  | .v4 _ => False
  | .v6 n =>
    (isMappedIPv4 n = true ∧ isPrivateIPv4 (n % 2 ^ 32) = true) ∨ (n = 1 ∧ ip ≠ lit "::1")

theorem denoted_cases {ip : JsString} {address : Address} (h : denoted ip = some address) :
    (∃ a b c d, octets ip = some (a, b, c, d) ∧
        address = .v4 (((256 * a + b) * 256 + c) * 256 + d)) ∨
      (octets ip = none ∧ ∃ hs, ipv6 ip = some hs ∧ address = .v6 (hextetsValue hs)) := by
  unfold denoted at h
  split at h
  · rename_i a b c d hoct
    exact .inl ⟨a, b, c, d, hoct, (Option.some.inj h).symm⟩
  · rename_i hoct
    obtain ⟨hs, hhs, rfl⟩ := Option.map_eq_some_iff.mp h
    exact .inr ⟨hoct, hs, hhs, rfl⟩

theorem isIP_ne_zero_iff (ip : JsString) : isIP ip ≠ 0 ↔ (denoted ip).isSome := by
  unfold isIP denoted
  cases hoct : octets ip with
  | some p => simp
  | none => cases hv6 : ipv6 ip <;> simp

theorem isLookupableAddress_v4 {ip : JsString} {a b c d : Nat}
    (h : octets ip = some (a, b, c, d)) :
    isLookupableAddress ip = !isPrivateIPv4 (((256 * a + b) * 256 + c) * 256 + d) := by
  have hip : isIP ip = 4 := by
    rw [isIP, h]
    rfl
  rw [isLookupableAddress, hip, ← isPrivateOrReservedIPv4_eq h]
  rfl

theorem isLookupableAddress_v6 {ip : JsString} {n : Nat} {hs : List Nat} (hoct : octets ip = none)
    (h : ipv6 ip = some (n :: hs)) :
    isLookupableAddress ip = !(decide (ip = lit "::1") || isPrivateHextet n) := by
  have hip : isIP ip = 6 := by
    rw [isIP, hoct, h]
    rfl
  rw [isLookupableAddress, hip, ← isPrivateOrReservedIPv6_eq h]
  rfl

theorem exists_seven {l : List Nat} (h : l.length = 7) :
    ∃ b c d e f g i, l = [b, c, d, e, f, g, i] := by
  obtain ⟨b, c, d, hfront⟩ := List.length_eq_three.mp (show (l.take 3).length = 3 by simp [h])
  obtain ⟨e, f, g, i, hback⟩ := List.length_eq_four.mp (show (l.drop 3).length = 4 by simp [h])
  refine ⟨b, c, d, e, f, g, i, ?_⟩
  rw [← List.take_append_drop 3 l, hfront, hback]
  rfl

/-- An IPv6 address is judged by its leading group, but for the loopback address and the mapped
ones, whose leading groups are zero. -/
theorem isPrivateAddress_v6 {n : Nat} {hs : List Nat} (hlen : (n :: hs).length = 8)
    (hlt : ∀ h ∈ n :: hs, h < 65536) :
    isPrivateAddress (.v6 (hextetsValue (n :: hs))) =
        (if isMappedIPv4 (hextetsValue (n :: hs)) then
          isPrivateIPv4 (hextetsValue (n :: hs) % 2 ^ 32)
        else decide (hextetsValue (n :: hs) = 1) || isPrivateHextet n) ∧
      (isMappedIPv4 (hextetsValue (n :: hs)) = true → n = 0 ∧ hextetsValue (n :: hs) ≠ 1) ∧
      (hextetsValue (n :: hs) = 1 → n = 0) := by
  obtain ⟨b, c, d, e, f, g, i, rfl⟩ := exists_seven (Nat.succ.inj hlen)
  simp only [List.mem_cons, List.not_mem_nil, or_false, forall_eq_or_imp, forall_eq] at hlt
  obtain ⟨-, hb, hc, hd, he, hf, hg, hi⟩ := hlt
  refine ⟨?_, isMappedIPv4_first hb hc hd he hf hg hi, fun hone => ?_⟩
  · have hblocks := privateBlocksIPv6_iff (a := n) hb hc hd he hf hg hi
    rw [isPrivateAddress]
    split
    · rfl
    · rw [Bool.eq_iff_iff, hblocks, Bool.or_eq_true, decide_eq_true_eq]
  · rw [hextetsValue_eq] at hone
    omega

theorem loopback_groups : ipv6 (lit "::1") = some [0, 0, 0, 0, 0, 0, 0, 1] := by decide

/-- What a spelling of an IPv6 address shows of it. -/
theorem loopback_of_text {ip : JsString} {hs : List Nat} (h : ipv6 ip = some hs)
    (hip : ip = lit "::1") : hextetsValue hs = 1 := by
  rw [hip] at h
  rw [Option.some.inj (h.symm.trans loopback_groups)]
  rfl

/-- The answer on a spelling of an IPv6 address. -/
theorem isLookupableAddress_v6_iff {ip : JsString} {hs : List Nat} (hoct : octets ip = none)
    (h : ipv6 ip = some hs) :
    isLookupableAddress ip = !isPrivateAddress (.v6 (hextetsValue hs)) ↔
      ¬ IsMisjudged ip (.v6 (hextetsValue hs)) := by
  obtain ⟨hlen, hlt⟩ := ipv6_spec h
  obtain ⟨n, hs, rfl⟩ := List.exists_cons_of_length_eq_add_one hlen
  obtain ⟨hprivate, hmapped, hone⟩ := isPrivateAddress_v6 hlen hlt
  have hzero : isPrivateHextet 0 = false := rfl
  rw [isLookupableAddress_v6 hoct h, hprivate, IsMisjudged]
  by_cases hm : isMappedIPv4 (hextetsValue (n :: hs)) = true
  · obtain ⟨rfl, hne⟩ := hmapped hm
    have hip : ip ≠ lit "::1" := fun hip => hne (loopback_of_text h hip)
    simp [hm, hne, hip, hzero]
  · by_cases hn : hextetsValue (n :: hs) = 1
    · obtain rfl := hone hn
      have hmapped1 : isMappedIPv4 1 = false := rfl
      simp [hn, hzero, hmapped1]
    · have hip : ip ≠ lit "::1" := fun hip => hn (loopback_of_text h hip)
      simp [hm, hn, hip]

/-- **Theorem (`isLookupableAddress_iff`).** -/
theorem isLookupableAddress_iff {ip : JsString} {address : Address}
    (h : denoted ip = some address) :
    isLookupableAddress ip = !isPrivateAddress address ↔ ¬ IsMisjudged ip address := by
  rcases denoted_cases h with ⟨a, b, c, d, hoct, rfl⟩ | ⟨hoct, hs, hv6, rfl⟩
  · exact iff_of_true (isLookupableAddress_v4 hoct) id
  · exact isLookupableAddress_v6_iff hoct hv6

theorem leading_of_value {n : Nat} {hs : List Nat} (hlen : (n :: hs).length = 8)
    (hlt : ∀ h ∈ n :: hs, h < 65536) : hextetsValue (n :: hs) / 2 ^ 112 = n := by
  obtain ⟨b, c, d, e, f, g, i, rfl⟩ := exists_seven (Nat.succ.inj hlen)
  simp only [List.mem_cons, List.not_mem_nil, or_false, forall_eq_or_imp, forall_eq] at hlt
  rw [hextetsValue_eq]
  norm_num
  omega

/-- The answer on a spelling, from the address and whether it is written `::1`. -/
theorem isLookupableAddress_v6_value {ip : JsString} {hs : List Nat} (hoct : octets ip = none)
    (h : ipv6 ip = some hs) :
    isLookupableAddress ip =
      !(decide (ip = lit "::1") || isPrivateHextet (hextetsValue hs / 2 ^ 112)) := by
  obtain ⟨hlen, hlt⟩ := ipv6_spec h
  obtain ⟨n, hs, rfl⟩ := List.exists_cons_of_length_eq_add_one hlen
  rw [isLookupableAddress_v6 hoct h, leading_of_value hlen hlt]

/-- Two spellings of an address get different answers exactly when the address is the loopback
address and only one of them is `::1`. -/
theorem isLookupableAddress_spelling {ip ip' : JsString} {address : Address}
    (h : denoted ip = some address) (h' : denoted ip' = some address) :
    isLookupableAddress ip = isLookupableAddress ip' ↔
      (address = .v6 1 → (ip = lit "::1" ↔ ip' = lit "::1")) := by
  rcases denoted_cases h with ⟨a, b, c, d, hoct, rfl⟩ | ⟨hoct, hs, hv6, rfl⟩
  · rcases denoted_cases h' with ⟨a', b', c', d', hoct', heq⟩ | ⟨-, hs', -, heq⟩
    · refine iff_of_true ?_ fun hv6 => by cases hv6
      rw [isLookupableAddress_v4 hoct, isLookupableAddress_v4 hoct', Address.v4.inj heq]
    · cases heq
  · rcases denoted_cases h' with ⟨a', b', c', d', -, heq⟩ | ⟨hoct', hs', hv6', heq⟩
    · cases heq
    · rw [isLookupableAddress_v6_value hoct hv6, isLookupableAddress_v6_value hoct' hv6',
        ← Address.v6.inj heq]
      by_cases hone : hextetsValue hs = 1
      · have hzero : isPrivateHextet (1 / 2 ^ 112) = false := rfl
        rw [hone, hzero]
        simp
      · have hip : ip ≠ lit "::1" := fun hip => hone (loopback_of_text hv6 hip)
        have hip' : ip' ≠ lit "::1" := fun hip' =>
          hone ((Address.v6.inj heq).trans (loopback_of_text hv6' hip'))
        simp [hip, hip']

/-- **Theorem (`isLookupableAddress_spec`).** -/
theorem isLookupableAddress_spec {ip : JsString} (h : isIP ip ≠ 0) :
    ∃ address, denoted ip = some address ∧
      (isLookupableAddress ip = !isPrivateAddress address ↔ ¬ IsMisjudged ip address) ∧
      ∀ ip', denoted ip' = some address →
        (isLookupableAddress ip = isLookupableAddress ip' ↔
          (address = .v6 1 → (ip = lit "::1" ↔ ip' = lit "::1"))) := by
  obtain ⟨address, haddress⟩ := Option.isSome_iff_exists.mp ((isIP_ne_zero_iff ip).mp h)
  exact ⟨address, haddress, isLookupableAddress_iff haddress, fun ip' h' =>
    isLookupableAddress_spelling haddress h'⟩

theorem isLookupableAddress_spec_mapped :
    isIP (lit "::ffff:10.0.0.1") ≠ 0 ∧ ∃ address, denoted (lit "::ffff:10.0.0.1") = some address ∧
      (isLookupableAddress (lit "::ffff:10.0.0.1") = !isPrivateAddress address ↔
        ¬ IsMisjudged (lit "::ffff:10.0.0.1") address) ∧
      ∀ ip', denoted ip' = some address →
        (isLookupableAddress (lit "::ffff:10.0.0.1") = isLookupableAddress ip' ↔
          (address = .v6 1 → (lit "::ffff:10.0.0.1" = lit "::1" ↔ ip' = lit "::1"))) :=
  ⟨by decide, isLookupableAddress_spec (by decide)⟩

/-- A private address in its mapped form, and the loopback address with its zeros written out. -/
theorem private_looked_up :
    (denoted (lit "::ffff:10.0.0.1") = some (.v6 0xffff0a000001) ∧
      isPrivateAddress (.v6 0xffff0a000001) = true ∧
      isLookupableAddress (lit "::ffff:10.0.0.1") = true) ∧
    denoted (lit "0:0:0:0:0:0:0:1") = denoted (lit "::1") ∧
      isLookupableAddress (lit "0:0:0:0:0:0:0:1") = true ∧
      isLookupableAddress (lit "::1") = false := by
  decide

end Posta
