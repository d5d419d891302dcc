import NetComponents.Curl.Url

/-!
# Printing of URLs

What `toString` prints is parsed with the same scheme, host and port; `roundTrip_iff` says when the
file and the parameters come back as well.
-/

namespace NetComponents.Curl

open Library Regex

namespace Url

variable (atoi : Atoi) {s : List Char}

/-- Parsing what is printed gives a valid URL again, with the same parts. -/
structure RoundTrip (u : Url) : Prop where
  valid : (parse atoi u.print).valid = true
  scheme : (parse atoi u.print).scheme = u.scheme
  host : (parse atoi u.print).host = u.host
  port : (parse atoi u.print).getPort atoi = u.getPort atoi
  file : (parse atoi u.print).file = u.file
  params : (parse atoi u.print).params = u.params

/-- A port that is there, and denotes a positive number. -/
structure Port (p : List Char) : Prop where
  digits : ∀ c ∈ p, c.isDigit = true
  positive : 0 < atoi.toInt p

variable {atoi}

theorem Port.ne_nil {p : List Char} (h : Port atoi p) : p ≠ [] := by
  rintro rfl
  have hzero := atoi.toInt_digits [] (by simp) (by decide)
  have hpositive := h.positive
  rw [hzero] at hpositive
  exact absurd hpositive (by decide)

theorem port_of_digits {p : List Char} (hdigits : ∀ c ∈ p, c.isDigit = true)
    (hdecimal : 0 < decimal p ∧ decimal p < 2 ^ 31) : Port atoi p := by
  refine ⟨hdigits, ?_⟩
  rw [atoi.toInt_digits p hdigits hdecimal.2]
  exact_mod_cast hdecimal.1

/-- A port is kept if it denotes a positive number, and replaced otherwise. -/
theorem patchPort_spec {u : Url} (hu : ∀ c ∈ u.port, c.isDigit = true) :
    ∃ p, u.patchPort atoi = { u with port := p } ∧ Port atoi p ∧
      (0 < atoi.toInt u.port → p = u.port) := by
  unfold patchPort getPort
  split_ifs with hport
  · exact ⟨_, rfl, port_of_digits (List.all_eq_true.mp rfl) (by decide),
      fun h => absurd h (by omega)⟩
  · exact ⟨_, rfl, port_of_digits (List.all_eq_true.mp rfl) (by decide),
      fun h => absurd h (by omega)⟩
  · exact ⟨_, rfl, port_of_digits (List.all_eq_true.mp rfl) (by decide),
      fun h => absurd h (by omega)⟩
  · exact ⟨u.port, rfl, ⟨hu, by omega⟩, fun _ => rfl⟩

theorem TailOf.join {q : List Char} {m : Groups Char} (h : TailOf q m) : m 4 ++ m 5 ++ m 6 = q := by
  rw [List.append_assoc, h.file, h.params, List.takeWhile_append_dropWhile]
  exact h.path.symm

theorem TailOf.path_eq_nil {q : List Char} {m : Groups Char} (h : TailOf q m) :
    m 4 = [] ↔ '/' ∉ q.takeWhile notMark := by
  obtain ⟨v, hv, -, hempty⟩ := exists_path q
  have hpath : m 4 = v := List.append_cancel_right (h.path.symm.trans hv)
  rw [hpath, hempty]

theorem digits_portOf (t : List Char) : ∀ c ∈ portOf t, c.isDigit = true := by
  unfold portOf
  split
  · exact fun c hc => List.mem_takeWhile_imp hc
  · simp

/-- What `parse` makes of a text that is matched. -/
theorem parse_spec (atoi : Atoi) (hs : Wellformed s) :
    ∃ m scheme p, PartsOf s m ∧ parse atoi s = ⟨scheme, m 2, p, m 4, m 5, m 6⟩ ∧
      scheme ≠ [] ∧ (∀ c ∈ scheme, schemeChar c = true) ∧ Port atoi p ∧
      (m 1 ≠ [] → scheme = m 1) ∧ (0 < atoi.toInt (m 3) → p = m 3) := by
  obtain ⟨m, hm, hparts⟩ := matches_of_wellformed hs
  have hscheme : ∀ c ∈ m 1, schemeChar c = true := by
    rw [hparts.scheme]
    rcases splitScheme_cases s with h | ⟨v, c, t, -, hv, -, -, h⟩
    · simp [h]
    · rwa [h]
  have hport : ∀ c ∈ m 3, c.isDigit = true := by
    rw [hparts.port]
    exact digits_portOf _
  by_cases hnone : m 1 = []
  · obtain ⟨p, hp, hpositive, hkept⟩ := @patchPort_spec atoi
      ⟨"https".toList, m 2, m 3, m 4, m 5, m 6⟩ hport
    refine ⟨m, "https".toList, p, hparts, ?_, by decide, List.all_eq_true.mp rfl,
      hpositive, fun h => absurd hnone h, hkept⟩
    simp only [parse, hm, hnone, if_true, hp]
  · obtain ⟨p, hp, hpositive, hkept⟩ := @patchPort_spec atoi
      ⟨m 1, m 2, m 3, m 4, m 5, m 6⟩ hport
    refine ⟨m, m 1, p, hparts, ?_, hnone, hscheme, hpositive, fun _ => rfl, hkept⟩
    simp only [parse, hm, hnone, if_false, hp]

/-- The texts that make a valid URL. -/
theorem valid_iff (atoi : Atoi) (s : List Char) : (parse atoi s).valid = true ↔ Wellformed s := by
  constructor
  · intro h
    cases hm : expression.matches? s with
    | none =>
      rw [parse, hm] at h
      cases h
    | some m => exact wellformed_of_matches hm
  · intro hs
    obtain ⟨m, v, p, hm, hparse, hne, -⟩ := parse_spec atoi hs
    obtain ⟨-, c, t, hrest, hc⟩ := hs
    have hhost : m 2 ≠ [] := by
      rw [hm.host, hrest, List.takeWhile_cons_of_pos (hostChar_of_isWord hc)]
      exact List.cons_ne_nil _ _
    simp [hparse, valid, hne, hhost]

theorem fits_rest (hs : Fits s) : Fits (rest s) := by
  have hsplit : Fits (splitScheme s).2 := by
    rcases splitScheme_cases s with h | ⟨v, c, t, -, hv, -, rfl, h⟩
    · rwa [h]
    · rw [h]
      exact (fits_scheme hv _).mp hs
  exact fits_behindPort.mpr ((fits_dropWhile fun c hc => notMark_of (by decide) hc).mpr hsplit)

/-- A port ends before a letter that is no digit. -/
theorem head_rest (s : List Char) : ∀ c ∈ (rest s).head?, c.isDigit = false := by
  unfold rest
  by_cases hport : portOf ((splitScheme s).2.dropWhile hostChar) = []
  · rw [behindPort_of_none hport]
    intro c hc
    have hhost := head_dropWhile c hc
    cases hdigit : c.isDigit with
    | false => rfl
    | true =>
      have hword : isWord c = true := by
        simp [isWord, Char.isAlphanum, hdigit]
      rw [hostChar_of_isWord hword] at hhost
      cases hhost
  · obtain ⟨c, t, -, -, -, hbehind⟩ := exists_port hport
    rw [hbehind]
    exact head_dropWhile

/-- A port is read back up to what follows it. -/
theorem port_append {p q : List Char} (hp : Port atoi p)
    (hq : ∀ c ∈ q.head?, c.isDigit = false) :
    portOf (':' :: (p ++ q)) = p ∧ behindPort (':' :: (p ++ q)) = q := by
  have hstop : q.takeWhile Char.isDigit = [] ∧ q.dropWhile Char.isDigit = q := by
    cases q with
    | nil => exact ⟨rfl, rfl⟩
    | cons a q =>
      have ha := hq a rfl
      exact ⟨List.takeWhile_cons_of_neg (by simp [ha]), List.dropWhile_cons_of_neg (by simp [ha])⟩
  have hdigits : (p ++ q).takeWhile Char.isDigit = p := by
    rw [List.takeWhile_append_of_pos hp.digits, hstop.1, List.append_nil]
  constructor
  · exact hdigits
  · have hfirst : behindPort (':' :: (p ++ q)) = (p ++ q).dropWhile Char.isDigit :=
      if_neg (by rw [hdigits]; exact hp.ne_nil)
    rw [hfirst, List.dropWhile_append_of_pos hp.digits, hstop.2]

/-- A host is read back up to the colon. -/
theorem host_append {w : List Char} (hw : ∀ c ∈ w, hostChar c = true) (t : List Char) :
    (w ++ ':' :: t).takeWhile hostChar = w ∧ (w ++ ':' :: t).dropWhile hostChar = ':' :: t := by
  rw [List.takeWhile_append_of_pos hw, List.dropWhile_append_of_pos hw]
  exact ⟨List.append_nil w, rfl⟩

/-- How a text is taken apart that has been put together. -/
theorem parts_print {v p q t : List Char} {c : Char} (hne : v ≠ [])
    (hv : ∀ a ∈ v, schemeChar a = true) (hc : isWord c = true) (ht : ∀ a ∈ t, hostChar a = true)
    (hp : Port atoi p) (hq : Fits q) (hhead : ∀ a ∈ q.head?, a.isDigit = false) :
    Wellformed (v ++ "://".toList ++ c :: (t ++ ':' :: (p ++ q))) ∧
      ∀ m, PartsOf (v ++ "://".toList ++ c :: (t ++ ':' :: (p ++ q))) m →
        m 1 = v ∧ m 2 = c :: t ∧ m 3 = p ∧ TailOf q m := by
  have hsplit := splitScheme_append hne hv hc (t ++ ':' :: (p ++ q))
  have hhost : ∀ a ∈ c :: t, hostChar a = true :=
    List.forall_mem_cons.mpr ⟨hostChar_of_isWord hc, ht⟩
  obtain ⟨htake, hdrop⟩ := host_append hhost (p ++ q)
  rw [List.cons_append] at htake hdrop
  obtain ⟨hport, hbehind⟩ := port_append hp hhead
  constructor
  · refine ⟨(fits_scheme hv _).mpr ?_, c, _, by rw [hsplit], hc⟩
    have hjoin : c :: (t ++ ':' :: (p ++ q)) = (c :: t ++ ':' :: p) ++ q := by simp
    have hmark : ∀ a ∈ ':' :: p, notMark a = true := List.forall_mem_cons.mpr
      ⟨by decide, fun a ha => notMark_of (by decide) (hp.digits a ha)⟩
    rw [hjoin, fits_append]
    · exact hq
    · exact List.forall_mem_append.mpr
        ⟨fun a ha => notMark_of (by decide) (hhost a ha), hmark⟩
  · intro m hm
    have htail := hm.toTailOf
    rw [rest, hsplit, hdrop, hbehind] at htail
    exact ⟨by rw [hm.scheme, hsplit], by rw [hm.host, hsplit, htake],
      by rw [hm.port, hsplit, hdrop, hport], htail⟩

/-- Parsing what is printed: the same scheme, host and port, and the parts of what was printed
behind them. -/
theorem parse_print (atoi : Atoi) (hs : Wellformed s) :
    ∃ m m', TailOf (rest s) m ∧ (parse atoi s).path = m 4 ∧ (parse atoi s).file = m 5 ∧
      (parse atoi s).params = m 6 ∧ TailOf (parse atoi s).target m' ∧
      parse atoi (parse atoi s).print =
        { parse atoi s with path := m' 4, file := m' 5, params := m' 6 } := by
  obtain ⟨m, v, p, hm, hparse, hne, hv, hp, -, -⟩ := parse_spec atoi hs
  obtain ⟨hfits, c, u, hrest, hc⟩ := hs
  have hhost : m 2 = c :: u.takeWhile hostChar := by
    rw [hm.host, hrest, List.takeWhile_cons_of_pos (hostChar_of_isWord hc)]
  have htarget : Fits (parse atoi s).target ∧
      ∀ a ∈ (parse atoi s).target.head?, a.isDigit = false := by
    rw [hparse, target]
    split_ifs with hpath
    · refine ⟨Or.inl rfl, ?_⟩
      rintro a ⟨⟩
      rfl
    · rw [hm.toTailOf.join]
      exact ⟨fits_rest hfits, head_rest s⟩
  have hprint : (parse atoi s).print =
      v ++ "://".toList ++ c :: (u.takeWhile hostChar ++ ':' :: (p ++ (parse atoi s).target)) := by
    rw [print, server, hparse]
    simp only [if_neg hp.ne_nil, hhost]
    simp
  obtain ⟨hwell, hparts⟩ := parts_print hne hv hc
    (fun a ha => List.mem_takeWhile_imp ha) hp htarget.1 htarget.2 (t := u.takeWhile hostChar)
  rw [← hprint] at hwell hparts
  obtain ⟨m', v', p', hm', hparse', -, -, -, hv', hp'⟩ := parse_spec atoi hwell
  obtain ⟨hscheme, hhost', hport, htail⟩ := hparts m' hm'
  refine ⟨m, m', hm.toTailOf, by rw [hparse], by rw [hparse], by rw [hparse], htail, ?_⟩
  have hsame : v' = v := (hv' (by rw [hscheme]; exact hne)).trans hscheme
  have hkept : p' = p := (hp' (by rw [hport]; exact hp.positive)).trans hport
  rw [hparse', hsame, hkept, hhost', ← hhost, hparse]

/-- A valid URL comes back exactly if nothing stands behind its host and port, or a path does. -/
theorem roundTrip_iff (h : (parse atoi s).valid = true) :
    RoundTrip atoi (parse atoi s) ↔ rest s = [] ∨ '/' ∈ (rest s).takeWhile notMark := by
  obtain ⟨m, m', hm, hpath, hfile, hparams, hm', hprint⟩ :=
    parse_print atoi ((valid_iff atoi s).mp h)
  have htrip : RoundTrip atoi (parse atoi s) ↔ m' 5 = m 5 ∧ m' 6 = m 6 := by
    constructor
    · intro ht
      have hfile' := ht.file
      have hparams' := ht.params
      rw [hprint] at hfile' hparams'
      exact ⟨hfile'.trans hfile, hparams'.trans hparams⟩
    · rintro ⟨h5, h6⟩
      refine ⟨?_, ?_, ?_, ?_, ?_, ?_⟩ <;> rw [hprint]
      · exact h
      · rfl
      · exact h5.trans hfile.symm
      · exact h6.trans hparams.symm
  rw [htrip]
  by_cases hempty : m 4 = []
  -- only `/` is printed, whatever the file and the parameters are
  · have htarget : (parse atoi s).target = "/".toList := by
      rw [target, hpath, if_pos hempty]
    rw [htarget] at hm'
    have hrest : rest s = m 5 ++ m 6 := by
      rw [← hm.join, hempty, List.nil_append]
    have hnone : '/' ∉ (rest s).takeWhile notMark := hm.path_eq_nil.mp hempty
    have hfile' : m' 5 = [] := hm'.file
    have hparams' : m' 6 = [] := hm'.params
    rw [hfile', hparams', or_iff_left hnone, hrest, List.append_eq_nil_iff]
    exact and_congr eq_comm eq_comm
  · have htarget : (parse atoi s).target = rest s := by
      rw [target, hpath, if_neg hempty, hfile, hparams, hm.join]
    rw [htarget] at hm'
    have hslash : '/' ∈ (rest s).takeWhile notMark := by
      by_contra hnone
      exact hempty (hm.path_eq_nil.mpr hnone)
    refine iff_of_true ⟨?_, ?_⟩ (Or.inr hslash)
    · rw [hm'.file, hm.file]
    · rw [hm'.params, hm.params]

/-- An `atoi` that takes a number of any size. -/
def unbounded : Atoi where
  toInt s := decimal s
  toInt_digits _ _ _ := rfl

theorem roundTrip_iff_path :
    RoundTrip unbounded (parse unbounded "http://a.b:8080/c/d?e=1".toList) :=
  (roundTrip_iff (by decide +kernel)).mpr (Or.inr (by decide +kernel))

/-- Without a path, the parameters are not printed. -/
theorem lost_params :
    (parse unbounded "http://a?b".toList).valid = true ∧
      ¬ RoundTrip unbounded (parse unbounded "http://a?b".toList) := by
  refine ⟨by decide +kernel, fun h => ?_⟩
  have hparams := h.params
  revert hparams
  decide +kernel

end Url

end NetComponents.Curl
