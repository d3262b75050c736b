import Posta.Contracts.Capture
import Posta.Core.Platform
import Posta.Js.Strings

/-!
# Redaction

What a dead-letter entry must not keep: credentials inside URLs of its message, and the values of
forbidden keys anywhere in its payload.

**Theorem (`redactForbiddenKeys_event`).** Redaction keeps captured events as they are, alone or
in a list.
-/

namespace Posta

open Js

def secretRedactionPlaceholder : JsString := lit "[REDACTED]"

/-! ## Messages -/

/-- `[a-zA-Z0-9+.-]`. -/
def isSchemeUnit (c : CodeUnit) : Bool :=
  isLetter c || isDigit c || c == unit '+' || c == unit '.' || c == unit '-'

/-- `[.,;:!?)\]}>'"]`. -/
def isTrailingPunctuation (c : CodeUnit) : Bool := (lit ".,;:!?)]\x7d>'\"").contains c

/-- A scheme with its `://` at the start of a text, and what follows. -/
def matchScheme (s : JsString) : Option (JsString × JsString) :=
  match s with
  | [] => none
  | c :: _ =>
    if isLetter c then
      (expect (lit "://") (s.dropWhile isSchemeUnit)).map fun rest =>
        (s.takeWhile isSchemeUnit ++ lit "://", rest)
    else none

/-- A match of `URL_LIKE_PATTERN` at the start of a text, and what follows. -/
def matchUrlLike (s : JsString) : Option (JsString × JsString) := do
  let (scheme, rest) ← matchScheme s
  let body := rest.takeWhile fun c => !isWhiteSpace c
  if body = [] then none
  else some (scheme ++ body, rest.dropWhile fun c => !isWhiteSpace c)

def redactUrlLikeChunk (P : Platform) (chunk : JsString) : JsString :=
  let trailing := (chunk.reverse.takeWhile isTrailingPunctuation).reverse
  let urlPart := (chunk.reverse.dropWhile isTrailingPunctuation).reverse
  match P.url urlPart with
  | none =>
    ((matchScheme urlPart).map Prod.fst).getD [] ++ secretRedactionPlaceholder ++ trailing
  | some parsed =>
    if parsed.username = [] ∧ parsed.password = [] then chunk
    else parsed.protocol ++ lit "//" ++ secretRedactionPlaceholder ++ lit "@" ++ parsed.host ++
      parsed.pathname ++ parsed.search ++ parsed.hash ++ trailing

/-- Every match replaced, from left to right. -/
def replaceUrlLike (P : Platform) : Nat → JsString → JsString
  | 0, s => s
  | _ + 1, [] => []
  | fuel + 1, c :: s =>
    match matchUrlLike (c :: s) with
    | some (chunk, rest) => redactUrlLikeChunk P chunk ++ replaceUrlLike P fuel rest
    | none => c :: replaceUrlLike P fuel s

def redactCredentialsFromMessage (P : Platform) (message : JsString) : JsString :=
  replaceUrlLike P message.length message

/-! ## Payloads -/

def forbiddenPayloadKeys : List JsString :=
  [lit "ip", lit "client_ip", lit "client-ip", lit "remote_addr", lit "remote-addr",
    lit "x-forwarded-for", lit "x_forwarded_for", lit "forwarded", lit "x-real-ip",
    lit "x_real_ip", lit "x-client-ip", lit "x_client_ip", lit "cf-connecting-ip",
    lit "cf_connecting_ip", lit "true-client-ip", lit "true_client_ip", lit "fastly-client-ip",
    lit "fastly_client_ip", lit "cookie", lit "set-cookie", lit "set_cookie"]

/-- The lower case of a code unit, as far as it is a single ASCII unit: the letters, and the
Kelvin sign. -/
def lowerUnit (c : CodeUnit) : CodeUnit :=
  if 65 ≤ c.toNat && c.toNat ≤ 90 then c + 32 else if c == 0x212A then unit 'k' else c

/-- `FORBIDDEN_PAYLOAD_KEYS.has(key.toLowerCase())`. -/
def isForbiddenKey (key : JsString) : Bool := forbiddenPayloadKeys.contains (key.map lowerUnit)

/-- `/^[A-Za-z_$][A-Za-z0-9_$]*$/`. -/
def isIdentifier : JsString → Bool
  | [] => false
  | c :: s =>
    (isLetter c || c == unit '_' || c == unit '$') &&
      s.all fun d => isLetter d || isDigit d || d == unit '_' || d == unit '$'

def buildPropertyPath (parentPath key : JsString) : JsString :=
  let segment := if isIdentifier key then key else lit "['" ++ key ++ lit "']"
  if parentPath = [] then segment
  else if isIdentifier key then parentPath ++ lit "." ++ key
  else parentPath ++ segment

def buildIndexPath (parentPath : JsString) (index : Nat) : JsString :=
  parentPath ++ lit "[" ++ natText index ++ lit "]"

def maxRedactionDepth : Nat := 50

def maxDepthExceededPlaceholder : JsString := lit "[MAX_DEPTH_EXCEEDED]"

mutual
/-- The redacted value and the paths of what was redacted. JSON data has no cycles. -/
def redactNode : Json → JsString → Nat → Json × List JsString
  | .arr elements, path, depth =>
    if maxRedactionDepth ≤ depth then (.str maxDepthExceededPlaceholder, [])
    else
      let (elements, keys) := redactElements elements path 0 (depth + 1)
      (.arr elements, keys)
  | .obj members, path, depth =>
    if maxRedactionDepth ≤ depth then (.str maxDepthExceededPlaceholder, [])
    else
      let (members, keys) := redactMembers members path (depth + 1)
      (.obj members, keys)
  | node, _, _ => (node, [])

def redactElements : List Json → JsString → Nat → Nat → List Json × List JsString
  | [], _, _, _ => ([], [])
  | element :: elements, path, index, depth =>
    let (element, keys) := redactNode element (buildIndexPath path index) depth
    let (elements, keys') := redactElements elements path (index + 1) depth
    (element :: elements, keys ++ keys')

def redactMembers : List (JsString × Json) → JsString → Nat →
    List (JsString × Json) × List JsString
  | [], _, _ => ([], [])
  | (key, value) :: members, path, depth =>
    let (members', keys') := redactMembers members path depth
    if isForbiddenKey key then
      ((key, .str secretRedactionPlaceholder) :: members', buildPropertyPath path key :: keys')
    else
      let (value, keys) := redactNode value (buildPropertyPath path key) depth
      ((key, value) :: members', keys ++ keys')
end

def redactForbiddenKeys (value : Json) : Json × List JsString := redactNode value [] 0

/-! ## Events stay as they are -/

/-- A string, a number, `null` or a truth value. -/
def IsScalar : Json → Prop
  | .arr _ => False
  | .obj _ => False
  | _ => True

theorem redactNode_scalar {v : Json} (hv : IsScalar v) (path : JsString) (depth : Nat) :
    redactNode v path depth = (v, []) := by
  cases v with
  | arr => exact hv.elim
  | obj => exact hv.elim
  | _ => rfl

theorem redactMembers_scalars {ms : List (JsString × Json)}
    (hkeys : ∀ m ∈ ms, isForbiddenKey m.1 = false) (hvals : ∀ m ∈ ms, IsScalar m.2)
    (path : JsString) (depth : Nat) : redactMembers ms path depth = (ms, []) := by
  induction ms with
  | nil => rfl
  | cons m ms ih =>
    obtain ⟨key, value⟩ := m
    rw [redactMembers, ih (fun m hm => hkeys m (List.mem_cons_of_mem _ hm))
      fun m hm => hvals m (List.mem_cons_of_mem _ hm), hkeys (key, value) List.mem_cons_self,
      redactNode_scalar (hvals (key, value) List.mem_cons_self)]
    rfl

theorem schema_keys_not_forbidden :
    (CaptureEventSchema.keys.all fun key => !isForbiddenKey key) = true := by
  decide +kernel

theorem isScalar_nullable (s : Option JsString) : IsScalar (CaptureEvent.nullable s) := by
  cases s <;> trivial

theorem isScalar_toMembers (e : CaptureEvent) : ∀ m ∈ e.toMembers, IsScalar m.2 := by
  intro m hm
  simp only [CaptureEvent.toMembers, List.mem_cons, List.not_mem_nil, or_false] at hm
  rcases hm with rfl | rfl | rfl | rfl | rfl | rfl | rfl | rfl | rfl | rfl | rfl | rfl | rfl | rfl |
    rfl | rfl | rfl | rfl | rfl | rfl | rfl | rfl | rfl | rfl
  iterate 5 · trivial
  iterate 17 · exact isScalar_nullable _
  · cases e.asn <;> trivial
  · exact isScalar_nullable _

theorem redactNode_event (e : CaptureEvent) (path : JsString) {depth : Nat}
    (hdepth : depth < maxRedactionDepth) : redactNode e.toJson path depth = (e.toJson, []) := by
  have hkeys : ∀ m ∈ e.toMembers, isForbiddenKey m.1 = false := by
    intro m hm
    have hk : m.1 ∈ CaptureEventSchema.keys :=
      CaptureEventSchema.map_fst_toMembers e ▸ List.mem_map_of_mem hm
    simpa using List.all_eq_true.mp schema_keys_not_forbidden m.1 hk
  rw [CaptureEvent.toJson, redactNode, if_neg (not_le.mpr hdepth),
    redactMembers_scalars hkeys (isScalar_toMembers e)]

theorem redactElements_events (events : List CaptureEvent) (path : JsString) (index : Nat)
    {depth : Nat} (hdepth : depth < maxRedactionDepth) :
    redactElements (events.map CaptureEvent.toJson) path index depth =
      (events.map CaptureEvent.toJson, []) := by
  induction events generalizing index with
  | nil => rfl
  | cons e events ih =>
    rw [List.map_cons, redactElements, redactNode_event e _ hdepth, ih]
    rfl

/-- **Theorem (`redactForbiddenKeys_event`).** -/
theorem redactForbiddenKeys_event (e : CaptureEvent) :
    redactForbiddenKeys e.toJson = (e.toJson, []) := redactNode_event e [] (by decide)

theorem redactForbiddenKeys_events (events : List CaptureEvent) :
    redactForbiddenKeys (.arr (events.map CaptureEvent.toJson)) =
      (.arr (events.map CaptureEvent.toJson), []) := by
  rw [redactForbiddenKeys, redactNode, if_neg (by decide), redactElements_events events _ _
    (by decide)]

end Posta
