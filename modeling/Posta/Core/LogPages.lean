import Posta.Core.EventLog

/-!
# Reading the log page by page

**Pages** (`ListObjectsPage`). The keys under a prefix are answered in pages, which may be cut
anywhere (`Cut`). A page that is cut short carries the token for the next one.

**Loop** (`listPages`). The keys of a page are yielded before the next page is asked for. A page
that is cut short without a token ends the listing with an error.

**Theorem (`streamPages_eq`).** However the pages are cut, the stream is that of the whole listings.
-/

namespace Posta

open Js

/-- A response to `ListObjectsV2`. -/
structure ListObjectsPage where
  contents : List JsString
  isTruncated : Bool
  nextContinuationToken : Option JsString

/-- The keys that a listing yields, and the error that ended it early. -/
structure KeyStream where
  keys : List JsString
  error : Option Thrown

def KeyStream.append (s t : KeyStream) : KeyStream :=
  match s.error with
  | some e => ⟨s.keys, some e⟩
  | none => ⟨s.keys ++ t.keys, t.error⟩

def noTokenError (keyPrefix : JsString) : Thrown :=
  .new (lit "streamEventLog: ListObjectsV2 for prefix \"" ++ keyPrefix ++
    lit "\" reported IsTruncated=true with no NextContinuationToken")

/-- `listObjectKeys`, on the responses to its requests. A page without a token is the last one that
is asked for. -/
def listPages (keyPrefix : JsString) : List ListObjectsPage → KeyStream
  | [] => ⟨[], none⟩
  | page :: pages =>
    let keys := page.contents.filter fun key => !key.isEmpty
    if page.isTruncated then
      match page.nextContinuationToken with
      | none => ⟨keys, some (noTokenError keyPrefix)⟩
      | some token =>
        if token.isEmpty then ⟨keys, some (noTokenError keyPrefix)⟩
        else KeyStream.append ⟨keys, none⟩ (listPages keyPrefix pages)
    else ⟨keys, none⟩

/-- The keys of the objects, prefix by prefix. -/
def listPrefixes (pages : JsString → List ListObjectsPage) : List JsString → KeyStream
  | [] => ⟨[], none⟩
  | keyPrefix :: prefixes =>
    (listPages keyPrefix (pages keyPrefix)).append (listPrefixes pages prefixes)

/-- `streamEventLog`, on the responses to its listings and the bodies of its objects. -/
def streamPages (pages : JsString → List ListObjectsPage) (body : JsString → JsString)
    (prefixes : List JsString) : Stream :=
  let listed := listPrefixes pages prefixes
  (streamObjects (listed.keys.map fun key => (key, body key))).append ⟨[], listed.error⟩

/-- The keys, cut into pages. -/
inductive Cut : List JsString → List ListObjectsPage → Prop
  | last (keys : List JsString) (token : Option JsString) : Cut keys [⟨keys, false, token⟩]
  | more (keys : List JsString) {token : JsString} (htoken : token ≠ []) {rest : List JsString}
      {pages : List ListObjectsPage} (hrest : Cut rest pages) :
      Cut (keys ++ rest) (⟨keys, true, some token⟩ :: pages)

variable {store : EventStore} {keyPrefix : JsString} {prefixes keys : List JsString}

/-- **One listing** yields all keys, however they are cut. -/
theorem listPages_cut {pages : List ListObjectsPage} (h : Cut keys pages)
    (hkeys : ∀ k ∈ keys, k ≠ []) : listPages keyPrefix pages = ⟨keys, none⟩ := by
  have hfilter : ∀ {l : List JsString}, (∀ k ∈ l, k ≠ []) →
      (l.filter fun key => !key.isEmpty) = l := by
    intro l hl
    apply List.filter_eq_self.mpr
    intro k hk
    simp [hl k hk]
  induction h with
  | last keys token =>
    rw [listPages]
    dsimp only
    rw [hfilter hkeys, if_neg (by simp)]
  | @more keys token htoken rest pages _ ih =>
    have hfirst : ∀ k ∈ keys, k ≠ [] := fun k hk => hkeys k (List.mem_append_left _ hk)
    have hrest := ih fun k hk => hkeys k (List.mem_append_right _ hk)
    rw [listPages]
    dsimp only
    rw [if_pos rfl, if_neg (by simpa using htoken), hfilter hfirst, hrest]
    rfl

theorem listPrefixes_cut {pages : JsString → List ListObjectsPage} (hne : ∀ p ∈ prefixes, p ≠ [])
    (hpages : ∀ p ∈ prefixes, Cut ((listObjectKeys store p).map Prod.fst) (pages p)) :
    listPrefixes pages prefixes =
      ⟨(prefixes.flatMap (listObjectKeys store)).map Prod.fst, none⟩ := by
  induction prefixes with
  | nil => rfl
  | cons p ps ih =>
    have hkeys : ∀ k ∈ (listObjectKeys store p).map Prod.fst, k ≠ [] := by
      intro k hk hnil
      obtain ⟨e, he, rfl⟩ := List.mem_map.mp hk
      have hpre := List.isPrefixOf_iff_prefix.mp (List.mem_filter.mp he).2
      exact hne p List.mem_cons_self (List.prefix_nil.mp (hnil ▸ hpre))
    rw [listPrefixes, listPages_cut (hpages p List.mem_cons_self) hkeys,
      ih (fun q hq => hne q (List.mem_cons_of_mem _ hq))
        (fun q hq => hpages q (List.mem_cons_of_mem _ hq)), List.flatMap_cons, List.map_append]
    rfl

theorem append_end (s : Stream) : s.append ⟨[], none⟩ = s := by
  obtain ⟨records, error⟩ := s
  cases error with
  | some e => rfl
  | none => simp [Stream.append]

/-- **Theorem (`streamPages_eq`).** -/
theorem streamPages_eq {pages : JsString → List ListObjectsPage} {body : JsString → JsString}
    (hne : ∀ p ∈ prefixes, p ≠ [])
    (hpages : ∀ p ∈ prefixes, Cut ((listObjectKeys store p).map Prod.fst) (pages p))
    (hbody : ∀ e ∈ store.entries, body e.1 = e.2) :
    streamPages pages body prefixes = streamEventLog store prefixes := by
  rw [streamPages, listPrefixes_cut hne hpages]
  dsimp only
  rw [append_end, streamEventLog, List.map_map]
  apply congrArg
  calc (prefixes.flatMap (listObjectKeys store)).map ((fun k => (k, body k)) ∘ Prod.fst)
      = (prefixes.flatMap (listObjectKeys store)).map id := by
        apply List.map_congr_left
        intro e he
        obtain ⟨p, -, he⟩ := List.mem_flatMap.mp he
        exact Prod.ext rfl (hbody e (List.mem_filter.mp he).1)
    _ = prefixes.flatMap (listObjectKeys store) := List.map_id _

end Posta
