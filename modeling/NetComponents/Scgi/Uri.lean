import NetComponents.Scgi.Response

/-!
# Canonical URIs

What `set_uri` makes of a text on an object without a URI, apart from the loop that it uses: a
separator in front, and of every run of separators the first one. Once made, a URI stays as it is,
so that a response carries the URI of its request.
-/

namespace NetComponents.Scgi

namespace RequestBase

/-- A character with the one before it is left out if both are separators. -/
def keep : Option Char × Char → Option Char
  | (previous, c) => if isSeparator c && previous.any isSeparator then none else some c

/-- The characters that are kept behind the given one: all but the separators that follow another
separator. -/
def keptFrom (previous : Option Char) (v : List Char) : List Char :=
  ((previous :: v.map some).zip v).filterMap keep

def kept (v : List Char) : List Char := keptFrom none v

/-- The separator in front of a text that starts with another character. -/
def lead (v : List Char) : List Char := if v.head?.any (!isSeparator ·) then ['/'] else []

/-- The URI that belongs to a text. -/
structure Canonical (v uri : List Char) : Prop extends Tidy uri where
  empty_iff : uri = [] ↔ v = []
  letters : uri.filter (!isSeparator ·) = v.filter (!isSeparator ·)
  firsts : uri = lead v ++ kept v

theorem keptFrom_cons (previous : Option Char) (c : Char) (v : List Char) :
    keptFrom previous (c :: v) = (keep (previous, c)).toList ++ keptFrom (some c) v := by
  simp only [keptFrom, List.map_cons, List.zip_cons_cons, List.filterMap_cons]
  cases keep (previous, c) <;> rfl

theorem filter_keptFrom (previous : Option Char) (v : List Char) :
    (keptFrom previous v).filter (!isSeparator ·) = v.filter (!isSeparator ·) := by
  induction v generalizing previous with
  | nil => rfl
  | cons c v ih =>
    rw [keptFrom_cons, List.filter_append, ih, List.filter_cons]
    cases hc : isSeparator c with
    | false => simp [keep, hc]
    | true => by_cases hprevious : previous.any isSeparator <;> simp [keep, hc, hprevious]

/-- Behind a character, the loop appends what is kept. The flag says whether that character was a
separator. -/
theorem foldl_uriStep (previous : Char) (v : List Char) {s : List Char × Bool} (hs : s.1 ≠ [])
    (hprevious : s.2 = isSeparator previous) :
    (v.foldl uriStep s).1 = s.1 ++ keptFrom (some previous) v := by
  induction v generalizing previous s with
  | nil => exact (List.append_nil _).symm
  | cons c v ih =>
    rw [List.foldl_cons, keptFrom_cons]
    cases hc : isSeparator c with
    | false =>
      rw [uriStep_letter hc, if_neg hs, ih c (by simp) hc.symm]
      simp [keep, hc]
    | true =>
      rw [uriStep_separator hc]
      split_ifs with hflag
      · rw [ih c hs (hflag.trans hc.symm)]
        simp [keep, hc, ← hprevious, hflag]
      · rw [ih c (by simp) hc.symm]
        simp [keep, hc, ← hprevious, hflag]

theorem foldl_uriStep_start (v : List Char) :
    (v.foldl uriStep ([], false)).1 = lead v ++ kept v := by
  cases v with
  | nil => rfl
  | cons c v =>
    rw [List.foldl_cons, kept, keptFrom_cons]
    cases hc : isSeparator c with
    | false =>
      rw [uriStep_letter hc, foldl_uriStep c v (by simp) hc.symm]
      simp [lead, keep, hc]
    | true =>
      rw [uriStep_separator hc, foldl_uriStep c v (by simp) hc.symm]
      simp [lead, keep, hc]

theorem lead_append_kept_eq_nil (v : List Char) : lead v ++ kept v = [] ↔ v = [] := by
  cases v with
  | nil => simp [lead, kept, keptFrom]
  | cons c v => cases hc : isSeparator c <;> simp [lead, kept, keptFrom_cons, keep, hc]

theorem canonical_setUri {self : RequestBase} (hself : self.uri = "") (value : String) :
    Canonical value.toList (self.setUri value).uri.toList := by
  have huri : (self.setUri value).uri.toList = lead value.toList ++ kept value.toList := by
    rw [setUri, String.toList_ofList, hself]
    exact foldl_uriStep_start value.toList
  refine ⟨tidy_setUri hself value, ?_, ?_, huri⟩
  · rw [huri]
    exact lead_append_kept_eq_nil value.toList
  · have hlead : (lead value.toList).filter (!isSeparator ·) = [] := by
      unfold lead
      split_ifs <;> rfl
    rw [huri, List.filter_append, hlead]
    exact filter_keptFrom none value.toList

theorem setUri_canonical {self : RequestBase} (hself : self.uri = "") {value : String}
    (h : Tidy value.toList) : (self.setUri value).uri = value := by
  rw [setUri_tidy self h, hself, String.empty_append]

/-- The URI of a text is canonical, setting it again changes nothing, and every response to a
request with this URI carries it. -/
theorem setUri_spec {fresh : RequestBase} (hfresh : fresh.uri = "") (value : String) :
    Canonical value.toList (fresh.setUri value).uri.toList ∧
      (∀ self : RequestBase, self.uri = "" →
        (self.setUri (fresh.setUri value).uri).uri = (fresh.setUri value).uri) ∧
      ∀ source : RequestBase, source.uri = (fresh.setUri value).uri →
        (∀ data, (Response.ofData source data).uri = source.uri) ∧
          ∀ code status, (Response.ofStatus source code status).uri = source.uri := by
  have hcanonical := canonical_setUri hfresh value
  refine ⟨hcanonical, fun self hself => setUri_canonical hself hcanonical.toTidy, ?_⟩
  intro source hsource
  have hinit : (Response.init source).uri = source.uri := by
    have htidy : Tidy source.uri.toList := by
      rw [hsource]
      exact hcanonical.toTidy
    exact setUri_canonical rfl htidy
  exact ⟨fun _ => hinit, fun _ _ => hinit⟩

/-- Setting `a//\b/` makes `/a/b/`. -/
theorem setUri_spec_mixed :
    ((({} : RequestBase).setUri "a//\\b/").uri = "/a/b/") ∧
      Canonical "a//\\b/".toList (({} : RequestBase).setUri "a//\\b/").uri.toList :=
  ⟨by decide, (setUri_spec rfl "a//\\b/").1⟩

end RequestBase

end NetComponents.Scgi
