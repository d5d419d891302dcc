import NetComponents.Library.Regex

/-!
# Directory listings

The body of a listing is split into lines, and every line is taken apart with a regular expression.
For a line that does not match, and for a link without a target, the constructor of an entry makes
an error object and does not throw it; only the conversion of the size throws. `listing_iff` says
for which listings the result is right nevertheless.
-/

namespace NetComponents.Curl

open Library Regex

def CURLE_FTP_BAD_FILE_LIST : ℤ := 87

/-- `tools::str::split`: the pieces between the separators, where it may leave out empty ones. -/
structure Split where
  split : (Char → Bool) → List Char → List (List Char)
  split_nonempty : ∀ p s, (split p s).filter (· ≠ []) = (s.splitOnP p).filter (· ≠ [])

structure DirectoryEntry where
  name : List Char := []
  link : List Char := []
  owner : List Char := []
  group : List Char := []
  permissions : List Char := []
  size : ℕ := 0
  df : Char := Char.ofNat 0
  deriving DecidableEq, Repr

namespace DirectoryEntry

def isSymbolicLink (e : DirectoryEntry) : Bool := e.df == 'l'

/-- `\s+` -/
def blanks : Regex Char := plus (one isSpace)

/-- `\d{1,2}` -/
def twoDigits : Regex Char := seq (one Char.isDigit) (opt (one Char.isDigit))

/-- Month, day, and time or year. -/
def date : Regex Char :=
  concat [times 3 (one isWord), blanks, twoDigits, blanks,
    alt (concat [twoDigits, literal ":".toList, twoDigits]) (times 4 (one Char.isDigit))]

def expression : Regex Char :=
  concat [Regex.group 1 (oneOf "-dbclps"),
    Regex.group 2 (times 9 (oneOf "-rwxs")), blanks,
    Regex.group 3 (plus (one Char.isDigit)), blanks,
    Regex.group 4 (plus (one isWord)), blanks,
    Regex.group 5 (plus (one isWord)), blanks,
    Regex.group 6 (plus (one Char.isDigit)), blanks,
    Regex.group 7 date, blanks,
    Regex.group 8 (plus (one isAny))]

def linkexp : Regex Char :=
  concat [Regex.group 1 (plus (one isAny)), literal " -> ".toList, Regex.group 2 (plus (one isAny))]

/-- `std::stoull`, on digits; an exception is known by its text. -/
def stoull (s : List Char) : Except String ℕ :=
  if decimal s < 2 ^ 64 then .ok (decimal s) else .error "stoull"

/-- The constructor from a line, which calls `parse`. -/
def parse (src : List Char) : Except String DirectoryEntry :=
  match expression.matches? src with
  -- the error that is constructed here is not thrown
  | none => .ok {}
  | some m =>
    match stoull (m 6) with
    | .error e => .error e
    | .ok size =>
      let entry : DirectoryEntry :=
        { df := (m 1).headD (Char.ofNat 0), permissions := m 2, owner := m 4, group := m 5,
          size := size }
      if !entry.isSymbolicLink then .ok { entry with name := m 8 }
      else
        match linkexp.matches? (m 8) with
        | some lm => .ok { entry with name := lm 1, link := lm 2 }
        | none => .ok entry

/-- A line of the grammar; that of a symbolic link has a target. -/
def Understood (line : List Char) : Prop :=
  ∃ m, expression.matches? line = some m ∧
    ((m 1).headD (Char.ofNat 0) = 'l' → (linkexp.matches? (m 8)).isSome)

/-- A line of the grammar whose size does not fit. -/
def Oversized (line : List Char) : Prop :=
  ∃ m, expression.matches? line = some m ∧ 2 ^ 64 ≤ decimal (m 6)

instance (line : List Char) : Decidable (Understood line) :=
  decidable_of_iff ((expression.matches? line).any fun m =>
      (m 1).headD (Char.ofNat 0) != 'l' || (linkexp.matches? (m 8)).isSome)
    (by simp [Understood, Option.any_eq_true, imp_iff_not_or])

instance (line : List Char) : Decidable (Oversized line) :=
  decidable_of_iff ((expression.matches? line).any fun m => decide (2 ^ 64 ≤ decimal (m 6)))
    (by simp [Oversized, Option.any_eq_true])

theorem parse_oversized {line : List Char} (h : Oversized line) :
    parse line = .error "stoull" := by
  obtain ⟨m, hm, hsize⟩ := h
  have hstoull : stoull (m 6) = .error "stoull" := if_neg (by omega)
  simp only [parse, hm, hstoull]

theorem parse_fits {line : List Char} (h : ¬ Oversized line) : ∃ e, parse line = .ok e := by
  unfold parse
  cases hm : expression.matches? line with
  | none => exact ⟨_, rfl⟩
  | some m =>
    have hsize : ¬ 2 ^ 64 ≤ decimal (m 6) := fun hsize => h ⟨m, hm, hsize⟩
    have hstoull : stoull (m 6) = .ok (decimal (m 6)) := if_pos (by omega)
    simp only [hstoull]
    split_ifs
    · exact ⟨_, rfl⟩
    · cases linkexp.matches? (m 8) <;> exact ⟨_, rfl⟩

theorem name_ne_nil {line : List Char} {m : Groups Char} (h : expression.matches? line = some m) :
    m 8 ≠ [] := by
  obtain ⟨g, w, hlast⟩ := parses_concat_last rfl (matches?_eq_some h)
  cases hlast with
  | group hname =>
    rw [Function.update_self]
    exact parses_plus_ne_nil hname

theorem link_ne_nil {name : List Char} {m : Groups Char} (h : linkexp.matches? name = some m) :
    m 1 ≠ [] := by
  cases matches?_eq_some h with
  | seq hfirst hrest =>
    have hfree : (concat [literal " -> ".toList, Regex.group 2 (plus (one isAny))]).Free 1 := by
      simp [concat, literal, plus, Free]
    rw [hrest.frame hfree]
    cases hfirst with
    | group hname =>
      rw [Function.update_self]
      exact parses_plus_ne_nil hname

theorem parse_name {line : List Char} {e : DirectoryEntry} (hline : Understood line)
    (h : parse line = .ok e) : e.name ≠ [] := by
  obtain ⟨m, hm, hlink⟩ := hline
  simp only [parse, hm] at h
  cases hsize : stoull (m 6) with
  | error what =>
    rw [hsize] at h
    cases h
  | ok size =>
    simp only [hsize] at h
    split_ifs at h with hflag
    · cases h
      exact name_ne_nil hm
    · have hl : (m 1).headD (Char.ofNat 0) = 'l' := by simpa [isSymbolicLink] using hflag
      obtain ⟨lm, hlm⟩ := Option.isSome_iff_exists.mp (hlink hl)
      simp only [hlm] at h
      cases h
      exact link_ne_nil hlm

end DirectoryEntry

structure RemoteDirectory where
  buffer : List Char := []
  entries : List DirectoryEntry := []
  deriving DecidableEq, Repr

namespace RemoteDirectory

/-- `write`, which stores every chunk. -/
def write (d : RemoteDirectory) (buf : List Char) : RemoteDirectory × ℕ :=
  ({ d with buffer := d.buffer ++ buf }, buf.length)

/-- The loop of `parse`. -/
def parseLines (d : RemoteDirectory) : List (List Char) → RemoteDirectory × Except String Unit
  | [] => (d, .ok ())
  | line :: rest =>
    match DirectoryEntry.parse line with
    | .error e => (d, .error e)
    | .ok entry => parseLines { d with entries := d.entries ++ [entry] } rest

def parse (split : Split) (d : RemoteDirectory) (src : List Char) :
    RemoteDirectory × Except String Unit :=
  d.parseLines (split.split (· == '\n') src)

/-- `done`; it returns the error and the text that the result handler is called with. -/
def done (split : Split) (d : RemoteDirectory) (error : ℤ) (text : String) :
    RemoteDirectory × ℤ × String :=
  if error = 0 then
    match d.parse split d.buffer with
    | (d, .ok ()) => (d, error, text)
    | (d, .error what) => (d, CURLE_FTP_BAD_FILE_LIST, what)
  else (d, error, text)

/-- The calls of `write` for the chunks of a listing. -/
def writes (d : RemoteDirectory) : List (List Char) → RemoteDirectory
  | [] => d
  | c :: cs => (d.write c).1.writes cs

/-- A transfer of a listing without an error. -/
def transfer (split : Split) (chunks : List (List Char)) (text : String) :
    RemoteDirectory × ℤ × String :=
  (({} : RemoteDirectory).writes chunks).done split 0 text

/-- The lines of a listing that are not empty. -/
def lines (text : List Char) : List (List Char) := (text.splitOn '\n').filter (· ≠ [])

/-- A listing is accepted if every line is understood, with one entry for each line; otherwise the
handler is told that the listing is bad. -/
structure Faithful (listing : List Char) (result : RemoteDirectory × ℤ × String) : Prop where
  accepted : result.2.1 = 0 ↔ ∀ line ∈ lines listing, DirectoryEntry.Understood line
  content : (∀ line ∈ lines listing, DirectoryEntry.Understood line) →
    List.Forall₂ (fun line e => DirectoryEntry.parse line = .ok e ∧ e.name ≠ [])
      (lines listing) result.1.entries
  rejected : ¬ (∀ line ∈ lines listing, DirectoryEntry.Understood line) →
    result.2.1 = CURLE_FTP_BAD_FILE_LIST

variable {d : RemoteDirectory}

theorem parseLines_fits {pieces : List (List Char)}
    (h : ∀ line ∈ pieces, ¬ DirectoryEntry.Oversized line) :
    ∃ es, d.parseLines pieces = ({ d with entries := d.entries ++ es }, .ok ()) ∧
      List.Forall₂ (fun line e => DirectoryEntry.parse line = .ok e) pieces es := by
  induction pieces generalizing d with
  | nil => exact ⟨[], by simp [parseLines], .nil⟩
  | cons line rest ih =>
    obtain ⟨hline, hrest⟩ := List.forall_mem_cons.mp h
    obtain ⟨e, he⟩ := DirectoryEntry.parse_fits hline
    obtain ⟨es, hes, hall⟩ := @ih { d with entries := d.entries ++ [e] } hrest
    refine ⟨e :: es, ?_, .cons he hall⟩
    simp only [parseLines, he, hes, List.append_assoc, List.singleton_append]

theorem parseLines_oversized {pieces : List (List Char)}
    (h : ∃ line ∈ pieces, DirectoryEntry.Oversized line) :
    ∃ d' what, d.parseLines pieces = (d', .error what) := by
  induction pieces generalizing d with
  | nil => simp at h
  | cons line rest ih =>
    by_cases hline : DirectoryEntry.Oversized line
    · exact ⟨d, "stoull", by simp only [parseLines, DirectoryEntry.parse_oversized hline]⟩
    · obtain ⟨e, he⟩ := DirectoryEntry.parse_fits hline
      have hrest : ∃ line ∈ rest, DirectoryEntry.Oversized line := by
        simpa [hline] using h
      obtain ⟨d', what, hd'⟩ := @ih { d with entries := d.entries ++ [e] } hrest
      exact ⟨d', what, by simp only [parseLines, he, hd']⟩

theorem writes_eq (chunks : List (List Char)) :
    d.writes chunks = { d with buffer := d.buffer ++ chunks.flatten } := by
  induction chunks generalizing d with
  | nil => simp [writes]
  | cons c cs ih => simp [writes, write, ih]

variable (split : Split)

/-- The pieces that `parse` looks at. -/
def pieces (listing : List Char) : List (List Char) := split.split (· == '\n') listing

theorem filter_pieces (listing : List Char) :
    (pieces split listing).filter (· ≠ []) = lines listing :=
  split.split_nonempty (· == '\n') listing

theorem exists_oversized {listing : List Char} :
    (∃ line ∈ pieces split listing, DirectoryEntry.Oversized line) ↔
      ∃ line ∈ lines listing, DirectoryEntry.Oversized line := by
  have hempty : ¬ DirectoryEntry.Oversized [] := by
    rintro ⟨m, hm, -⟩
    cases hm
  rw [← filter_pieces split]
  constructor
  · rintro ⟨line, hline, hsize⟩
    have hne : line ≠ [] := by
      rintro rfl
      exact hempty hsize
    exact ⟨line, List.mem_filter.mpr ⟨hline, by simp [hne]⟩, hsize⟩
  · rintro ⟨line, hline, hsize⟩
    exact ⟨line, (List.mem_filter.mp hline).1, hsize⟩

/-- Without an oversized line, a listing is accepted, with one entry for every piece. -/
theorem transfer_fits {chunks : List (List Char)} (text : String)
    (h : ∀ line ∈ lines chunks.flatten, ¬ DirectoryEntry.Oversized line) :
    ∃ d, transfer split chunks text = (d, 0, text) ∧
      List.Forall₂ (fun line e => DirectoryEntry.parse line = .ok e)
        (pieces split chunks.flatten) d.entries := by
  have hpieces : ∀ line ∈ pieces split chunks.flatten, ¬ DirectoryEntry.Oversized line := by
    intro line hline hsize
    obtain ⟨line', hline', hsize'⟩ := (exists_oversized split).mp ⟨line, hline, hsize⟩
    exact h line' hline' hsize'
  obtain ⟨es, hes, hall⟩ := @parseLines_fits { buffer := chunks.flatten } _ hpieces
  refine ⟨{ buffer := chunks.flatten, entries := es }, ?_, hall⟩
  rw [pieces] at hes
  simp only [transfer, done, writes_eq, parse, List.nil_append, if_true, hes]

theorem transfer_oversized {chunks : List (List Char)} (text : String)
    (h : ∃ line ∈ lines chunks.flatten, DirectoryEntry.Oversized line) :
    (transfer split chunks text).2.1 = CURLE_FTP_BAD_FILE_LIST := by
  obtain ⟨d, what, hd⟩ := @parseLines_oversized { buffer := chunks.flatten } _
    ((exists_oversized split).mpr h)
  rw [pieces] at hd
  simp only [transfer, done, writes_eq, parse, List.nil_append, if_true, hd]

/-- The result is right for a listing whose lines are all understood and have sizes that fit, if no
empty piece is left between them; and for a listing with a line that is not understood only by
chance, when there is another one whose size does not fit. -/
theorem listing_iff (chunks : List (List Char)) (text : String) :
    Faithful chunks.flatten (transfer split chunks text) ↔
      ((∀ line ∈ lines chunks.flatten, DirectoryEntry.Understood line) ∧
          (∀ line ∈ lines chunks.flatten, ¬ DirectoryEntry.Oversized line) ∧
          [] ∉ pieces split chunks.flatten) ∨
        (¬ (∀ line ∈ lines chunks.flatten, DirectoryEntry.Understood line) ∧
          ∃ line ∈ lines chunks.flatten, DirectoryEntry.Oversized line) := by
  have hbad : CURLE_FTP_BAD_FILE_LIST ≠ 0 := by decide
  by_cases hsize : ∃ line ∈ lines chunks.flatten, DirectoryEntry.Oversized line
  -- the listing is rejected, whatever the other lines are
  · have herror := transfer_oversized split text hsize
    constructor
    · intro h
      refine Or.inr ⟨fun hall => ?_, hsize⟩
      exact hbad (herror.symm.trans (h.accepted.mpr hall))
    · rintro (⟨-, hfits, -⟩ | ⟨hnot, -⟩)
      · obtain ⟨line, hline, hover⟩ := hsize
        exact absurd hover (hfits line hline)
      · exact ⟨iff_of_false (herror ▸ hbad) hnot, fun hall => absurd hall hnot, fun _ => herror⟩
  · have hfits : ∀ line ∈ lines chunks.flatten, ¬ DirectoryEntry.Oversized line := by
      simpa using hsize
    obtain ⟨d, htransfer, hentries⟩ := transfer_fits split text hfits
    rw [htransfer]
    constructor
    · intro h
      have hall := h.accepted.mp rfl
      refine Or.inl ⟨hall, hfits, fun hempty => ?_⟩
      have hlength := (h.content hall).length_eq.trans hentries.length_eq.symm
      rw [← filter_pieces split, List.length_filter_eq_length_iff] at hlength
      simpa using hlength [] hempty
    · rintro (⟨hall, -, hempty⟩ | ⟨-, hover⟩)
      · have hlines : lines chunks.flatten = pieces split chunks.flatten := by
          rw [← filter_pieces split, List.filter_eq_self]
          intro line hline
          simpa using fun hnil : line = [] => hempty (hnil ▸ hline)
        refine ⟨iff_of_true rfl hall, fun _ => ?_, fun hnot => absurd hall hnot⟩
        rw [← hlines, List.forall₂_iff_zip] at hentries
        refine List.forall₂_iff_zip.mpr ⟨hentries.1, fun {line e} hmem => ?_⟩
        have hparse := hentries.2 hmem
        exact ⟨hparse, DirectoryEntry.parse_name (hall line (List.of_mem_zip hmem).1) hparse⟩
      · exact absurd hover hsize

/-- A `split` that leaves out all empty pieces. -/
def compress : Split where
  split p s := (s.splitOnP p).filter (· ≠ [])
  split_nonempty p s := by rw [List.filter_filter]; simp

def listing : List Char :=
  "-rw-r--r-- 1 ftp ftp 9 Jan 12 10:30 a b\n\nlrwxrwxrwx 1 u g 0 May 1 2020 c -> d\n".toList

/-- Two lines that are understood, with an empty one between them. -/
theorem listing_iff_two_lines :
    Faithful [listing.take 20, listing.drop 20].flatten
      (transfer compress [listing.take 20, listing.drop 20] "") :=
  (listing_iff compress [listing.take 20, listing.drop 20] "").mpr (Or.inl (by decide +kernel))

/-- The first line of `ls -l` is no entry, and the listing is accepted. -/
theorem bad_line_accepted :
    ¬ Faithful ["total 0".toList].flatten (transfer compress ["total 0".toList] "") := by
  have hfits : ∀ line ∈ lines ["total 0".toList].flatten, ¬ DirectoryEntry.Oversized line := by
    decide +kernel
  obtain ⟨d, htransfer, -⟩ := transfer_fits compress "" hfits
  intro h
  have hall := h.accepted.mp (by rw [htransfer])
  revert hall
  decide +kernel

end RemoteDirectory

end NetComponents.Curl
