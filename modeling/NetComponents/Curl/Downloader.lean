import NetComponents.Library.Bytes
import NetComponents.Library.Exec

/-!
# Downloading to a file

The body of a transfer goes to a temporary file, which is opened at the first chunk.
When the transfer is over, the temporary file is renamed to the target, or removed if
there was an error. What the file system does at each of these calls is an input of
the model. There is a directory for temporary files: without one, `open` throws
through libcurl, and the files stay as they are.
-/

namespace NetComponents.Curl

open Library

def CURLE_WRITE_ERROR : ℤ := 23

/-- One pass of the loop in `open`: there is no name for a file, the file cannot be opened, or
it is open. -/
inductive Attempt where
  | noPath
  | refused
  | opened
  deriving DecidableEq, Repr

/-- A call of `write`: the data, what the attempts to open a file would come to, and after how
many bytes the stream fails, if it does. -/
structure Chunk where
  bytes : Bytes
  attempts : ℕ → Attempt
  kept : Option ℕ

/-- The calls at the end: after how many bytes of the file closing the stream fails, if it
does, and whether the file can be renamed. -/
structure Ending where
  flush : Option ℕ
  renames : Bool
  deriving DecidableEq, Repr

/-- What is in the file after the stream was closed. -/
def Ending.flushed (e : Ending) (bytes : Bytes) : Bytes :=
  match e.flush with
  | none => bytes
  | some n => bytes.take n

/-- The stream `out_` and the contents of the temporary file and of the target, as far as
these exist. -/
structure Downloader where
  isOpen : Bool
  good : Bool
  tmpfile : Option Bytes
  file : Option Bytes
  deriving DecidableEq, Repr

namespace Downloader

def fresh (file : Option Bytes) : Downloader := ⟨false, true, none, file⟩

/-- The loop of `open`, from pass `i` on for `n` more passes. -/
def openLoop (d : Downloader) (attempts : ℕ → Attempt) (i : ℕ) : ℕ → Downloader × Bool
  | 0 => (d, false)
  | n + 1 =>
    if attempts i = .opened then
      ({ d with isOpen := true, good := true, tmpfile := some [] }, true)
    else openLoop d attempts (i + 1) n

/-- `open` -/
def openTmpfile (d : Downloader) (attempts : ℕ → Attempt) : Downloader × Bool :=
  if d.isOpen then (d, true) else d.openLoop attempts 0 10

/-- `out_.write`. A stream that has failed writes nothing. -/
def put (d : Downloader) (c : Chunk) : Downloader × Bool :=
  if d.good then
    match c.kept with
    | none => ({ d with tmpfile := d.tmpfile.map (· ++ c.bytes) }, true)
    | some n => ({ d with good := false, tmpfile := d.tmpfile.map (· ++ c.bytes.take n) }, false)
  else (d, false)

/-- `write`; it returns the size that libcurl is told. -/
def write (d : Downloader) (c : Chunk) : Downloader × ℕ :=
  match d.openTmpfile c.attempts with
  | (d, false) => (d, subSize c.bytes.length 1)
  | (d, true) =>
    match d.put c with
    | (d, false) => (d, subSize c.bytes.length 1)
    | (d, true) => (d, c.bytes.length)

def close (d : Downloader) (error : ℤ) (e : Ending) : Downloader × Exec Unit :=
  if d.isOpen then
    let d := { d with isOpen := false, tmpfile := d.tmpfile.map e.flushed }
    if error = 0 then
      if e.renames then ({ d with tmpfile := none, file := d.tmpfile }, .ok ())
      else (d, .error (.exception "boost::filesystem::rename"))
    else ({ d with tmpfile := none }, .ok ())
  else (d, .ok ())

/-- `done`; it returns the error that the result handler is called with. -/
def done (d : Downloader) (error : ℤ) (e : Ending) : Downloader × ℤ :=
  match d.close error e with
  | (d, .ok ()) => (d, error)
  | (d, .error _) => (d, CURLE_WRITE_ERROR)

/-- The calls of `write` for the chunks of the body. -/
def writes (d : Downloader) : List Chunk → Downloader
  | [] => d
  | c :: cs => (d.write c).1.writes cs

/-- A whole transfer: the chunks, and the error that libcurl reports at the end. -/
def transfer (file : Option Bytes) (chunks : List Chunk) (error : ℤ) (e : Ending) :
    Downloader × ℤ :=
  ((fresh file).writes chunks).done error e

end Downloader

/-- One of the ten attempts of `open` succeeds. -/
def Chunk.Opens (c : Chunk) : Prop := ∃ i < 10, c.attempts i = .opened

/-- The bytes of a chunk are stored: there are none, or the file is open by then, no write
into it has failed before, and this one stores them all. -/
def Chunk.Stored (earlier : List Chunk) (c : Chunk) : Prop :=
  c.bytes = [] ∨ (∃ x ∈ earlier ++ [c], x.Opens) ∧
    (∀ before x, before ++ [x] <+: earlier → (∃ y ∈ before ++ [x], y.Opens) → x.kept = none) ∧
    ∀ n, c.kept = some n → c.bytes.length ≤ n

namespace Downloader

/-- What a call of `write` puts into the temporary file. -/
def stored (d : Downloader) (c : Chunk) : Bytes :=
  match d.openTmpfile c.attempts with
  | (_, false) => []
  | (d, true) =>
    if d.good then
      match c.kept with
      | none => c.bytes
      | some n => c.bytes.take n
    else []

theorem openLoop_opened {d : Downloader} {attempts : ℕ → Attempt} {i j n : ℕ} (hi : i ≤ j)
    (hj : j < i + n) (h : attempts j = .opened) :
    d.openLoop attempts i n =
      ({ d with isOpen := true, good := true, tmpfile := some [] }, true) := by
  induction n generalizing i with
  | zero => omega
  | succ n ih =>
    unfold openLoop
    by_cases hopened : attempts i = .opened
    · rw [if_pos hopened]
    · have hne : i ≠ j := by
        rintro rfl
        exact hopened h
      rw [if_neg hopened]
      exact ih (by omega) (by omega)

theorem openLoop_refused {d : Downloader} {attempts : ℕ → Attempt} {i n : ℕ}
    (h : ∀ j, j < i + n → attempts j ≠ .opened) : d.openLoop attempts i n = (d, false) := by
  induction n generalizing i with
  | zero => rfl
  | succ n ih =>
    unfold openLoop
    rw [if_neg (h i (by omega))]
    apply ih
    intro j hj
    exact h j (by omega)

/-- While the stream is open the file is there, before that it is not, and no write has failed. -/
def Sound (d : Downloader) : Prop :=
  d.isOpen = true ∧ (∃ bytes, d.tmpfile = some bytes) ∨
    d.isOpen = false ∧ d.tmpfile = none ∧ d.good = true

/-- The stream is open after `open`, and nothing else has changed. -/
structure Opened (d d' : Downloader) : Prop where
  isOpen : d'.isOpen = true
  tmpfile : d'.tmpfile = some (d.tmpfile.getD [])
  file : d'.file = d.file
  good : d'.good = d.good

theorem openTmpfile_cases {d : Downloader} (h : d.Sound) (c : Chunk) :
    (d.isOpen = true ∨ c.Opens) ∧
      (∃ d', d.openTmpfile c.attempts = (d', true) ∧ Opened d d') ∨
    d.isOpen = false ∧ ¬c.Opens ∧ d.openTmpfile c.attempts = (d, false) := by
  rcases h with ⟨hopen, bytes, htmp⟩ | ⟨hclosed, hnone, hgood⟩
  · refine .inl ⟨.inl hopen, d, ?_, hopen, ?_, rfl, rfl⟩
    · rw [openTmpfile, if_pos hopen]
    · rw [htmp, Option.getD_some]
  · have hloop : d.openTmpfile c.attempts = d.openLoop c.attempts 0 10 := by
      rw [openTmpfile, hclosed]
      rfl
    by_cases hopens : c.Opens
    · obtain ⟨i, hi, hopened⟩ := hopens
      refine .inl ⟨.inr ⟨i, hi, hopened⟩, _,
        hloop.trans (openLoop_opened (Nat.zero_le i) (by omega) hopened), rfl, ?_, rfl, ?_⟩
      · rw [hnone, Option.getD_none]
      · exact hgood.symm
    · refine .inr ⟨hclosed, hopens, hloop.trans (openLoop_refused ?_)⟩
      intro j hj hopened
      exact hopens ⟨j, by omega, hopened⟩

/-- The effect of a call of `write`: the target is not touched, the stream is open if it was
or one of the attempts succeeds, it fails if it does not store everything, and what is stored is
appended to the temporary file. -/
structure Writes (d d' : Downloader) (c : Chunk) : Prop where
  sound : d'.Sound
  file : d'.file = d.file
  isOpen : d'.isOpen = true ↔ d.isOpen = true ∨ c.Opens
  good : d'.good = true ↔ d.good = true ∧ (d'.isOpen = true → c.kept = none)
  tmpfile : d'.tmpfile.getD [] = d.tmpfile.getD [] ++ d.stored c

theorem put_effect {d : Downloader} {bytes : Bytes} (htmp : d.tmpfile = some bytes) (c : Chunk) :
    (d.put c).1.isOpen = d.isOpen ∧ (d.put c).1.file = d.file ∧
      ((d.put c).1.good = true ↔ d.good = true ∧ c.kept = none) ∧
      (d.put c).1.tmpfile = some (bytes ++
        if d.good then (match c.kept with | none => c.bytes | some n => c.bytes.take n)
        else []) := by
  unfold put
  cases hgood : d.good with
  | false => simp [htmp, hgood]
  | true => cases c.kept <;> simp [htmp]

theorem write_open {d : Downloader} {c : Chunk} {d₁ : Downloader}
    (h : d.openTmpfile c.attempts = (d₁, true)) : (d.write c).1 = (d₁.put c).1 := by
  unfold write
  rw [h]
  rcases hput : d₁.put c with ⟨d₂, _ | _⟩ <;> simp only [hput]

theorem write_effect {d : Downloader} (h : d.Sound) (c : Chunk) : Writes d (d.write c).1 c := by
  rcases openTmpfile_cases h c with ⟨hopens, d', hopen, hd'⟩ | ⟨hclosed, hopens, hrefused⟩
  · obtain ⟨hisOpen, hfile, hgood, htmp⟩ := put_effect hd'.tmpfile c
    have hopened := hisOpen.trans hd'.isOpen
    rw [write_open hopen]
    refine ⟨.inl ⟨hopened, _, htmp⟩, hfile.trans hd'.file, iff_of_true hopened hopens, ?_, ?_⟩
    · rw [hgood, hd'.good, forall_prop_of_true hopened]
    · rw [htmp, stored, hopen]
      rfl
  · have hwrite : (d.write c).1 = d := by
      rw [write, hrefused]
    rw [hwrite]
    refine ⟨h, rfl, by simp [hopens], by simp [hclosed], ?_⟩
    rw [stored, hrefused]
    simp

theorem length_stored_le (d : Downloader) (c : Chunk) : (d.stored c).length ≤ c.bytes.length := by
  unfold stored
  rcases d.openTmpfile c.attempts with ⟨d₁, _ | _⟩
  · simp
  · simp only
    cases d₁.good with
    | false => simp
    | true => cases c.kept <;> simp

theorem stored_eq_iff {d : Downloader} (h : d.Sound) (c : Chunk) :
    d.stored c = c.bytes ↔ c.bytes = [] ∨ (d.isOpen = true ∨ c.Opens) ∧ d.good = true ∧
      ∀ n, c.kept = some n → c.bytes.length ≤ n := by
  rcases openTmpfile_cases h c with ⟨hopens, d', hopen, hd'⟩ | ⟨hclosed, hopens, hrefused⟩
  · rw [and_iff_right hopens, ← hd'.good, stored, hopen]
    simp only
    cases d'.good with
    | false =>
      rw [eq_comm]
      simp
    | true =>
      cases c.kept with
      | none => simp
      | some n =>
        simp only [if_true, true_and, Option.some.injEq, forall_eq', List.take_eq_self_iff]
        constructor
        · exact .inr
        · rintro (hempty | hle)
          · simp [hempty]
          · exact hle
  · rw [stored, hrefused, eq_comm]
    simp [hclosed, hopens]

theorem writes_snoc (d : Downloader) (chunks : List Chunk) (c : Chunk) :
    d.writes (chunks ++ [c]) = ((d.writes chunks).write c).1 := by
  induction chunks generalizing d with
  | nil => rfl
  | cons x chunks ih => exact ih (d.write x).1

/-- The state after the calls of `write` for some chunks. -/
structure Written (file : Option Bytes) (chunks : List Chunk) (d : Downloader) : Prop where
  sound : d.Sound
  file : d.file = file
  isOpen : d.isOpen = true ↔ ∃ c ∈ chunks, c.Opens
  good : d.good = true ↔
    ∀ before x, before ++ [x] <+: chunks → (∃ y ∈ before ++ [x], y.Opens) → x.kept = none
  length_le : (d.tmpfile.getD []).length ≤ (chunks.flatMap Chunk.bytes).length
  tmpfile : d.tmpfile.getD [] = chunks.flatMap Chunk.bytes ↔
    ∀ earlier c, earlier ++ [c] <+: chunks → c.Stored earlier

theorem Written.write {file : Option Bytes} {chunks : List Chunk} {d : Downloader}
    (h : Written file chunks d) (c : Chunk) : Written file (chunks ++ [c]) (d.write c).1 := by
  obtain ⟨hsound, hfile, hopen, hgood, htmp⟩ := write_effect h.sound c
  have hopens : (d.write c).1.isOpen = true ↔ ∃ x ∈ chunks ++ [c], x.Opens := by
    rw [hopen, h.isOpen]
    simp [or_and_right, exists_or]
  have hshort := length_stored_le d c
  have hle := h.length_le
  refine ⟨hsound, hfile.trans h.file, hopens, ?_, ?_, ?_⟩
  · rw [forall_prefix_snoc, ← h.good, hgood, hopens]
  · rw [htmp]
    simp only [List.flatMap_append, List.length_append, List.flatMap_singleton]
    omega
  · rw [htmp, List.flatMap_append, List.flatMap_singleton,
      append_eq_append_iff_of_le h.length_le hshort, forall_prefix_snoc, h.tmpfile,
      stored_eq_iff h.sound, ← hopen, hopens, h.good, Chunk.Stored]

theorem written (file : Option Bytes) (chunks : List Chunk) :
    Written file chunks ((fresh file).writes chunks) := by
  induction chunks using List.reverseRecOn with
  | nil => exact ⟨.inr ⟨rfl, rfl, rfl⟩, rfl, by simp [writes, fresh], by simp [writes, fresh],
      Nat.le_refl 0, by simp [writes, fresh]⟩
  | append_singleton chunks c ih =>
    rw [writes_snoc]
    exact ih.write c

/-- What the transfer is to leave behind: the whole body in the target if the result handler
is called without an error, the old target otherwise, and no temporary file. -/
def AllOrNothing (file : Option Bytes) (chunks : List Chunk) (result : Downloader × ℤ) : Prop :=
  (result.2 = 0 → result.1.file = some (chunks.flatMap Chunk.bytes)) ∧
    (result.2 ≠ 0 → result.1.file = file) ∧ result.1.tmpfile = none

theorem done_closed {d : Downloader} (h : d.isOpen = false) (error : ℤ) (e : Ending) :
    d.done error e = (d, error) := by
  simp [done, close, h]

theorem done_error {d : Downloader} (h : d.isOpen = true) {error : ℤ} (herror : error ≠ 0)
    (e : Ending) :
    d.done error e = ({ d with isOpen := false, tmpfile := none }, error) := by
  simp [done, close, h, herror]

theorem done_rename {d : Downloader} (h : d.isOpen = true) {bytes : Bytes}
    (htmp : d.tmpfile = some bytes) {e : Ending} (hrenames : e.renames = true) :
    d.done 0 e =
      ({ d with isOpen := false, tmpfile := none, file := some (e.flushed bytes) }, 0) := by
  simp [done, close, h, htmp, hrenames]

theorem done_throws {d : Downloader} (h : d.isOpen = true) {bytes : Bytes}
    (htmp : d.tmpfile = some bytes) {e : Ending} (hfails : e.renames = false) :
    d.done 0 e =
      ({ d with isOpen := false, tmpfile := some (e.flushed bytes) }, CURLE_WRITE_ERROR) := by
  simp [done, close, h, htmp, hfails]

theorem flushed_eq_iff {e : Ending} {bytes body : Bytes} (hle : bytes.length ≤ body.length) :
    e.flushed bytes = body ↔ bytes = body ∧ ∀ n, e.flush = some n → body.length ≤ n := by
  unfold Ending.flushed
  cases e.flush with
  | none => simp
  | some n =>
    simp only [Option.some.injEq, forall_eq']
    constructor
    · intro h
      have hlength := congrArg List.length h
      rw [List.length_take] at hlength
      refine ⟨?_, by omega⟩
      rw [← h, List.take_of_length_le (by omega)]
    · rintro ⟨rfl, hn⟩
      exact List.take_of_length_le hn

/-- A transfer is all or nothing exactly if it ends with an error, or the whole body is stored,
flushed and renamed, or no file was opened and the target happens to hold the body already. -/
theorem all_or_nothing_iff (file : Option Bytes) (chunks : List Chunk) (error : ℤ)
    (e : Ending) :
    AllOrNothing file chunks (transfer file chunks error e) ↔
      error ≠ 0 ∨
      ((∃ c ∈ chunks, c.Opens) ∧
        (∀ earlier c, earlier ++ [c] <+: chunks → c.Stored earlier) ∧
        (∀ n, e.flush = some n → (chunks.flatMap Chunk.bytes).length ≤ n) ∧ e.renames = true) ∨
      ((∀ c ∈ chunks, ¬c.Opens) ∧ file = some (chunks.flatMap Chunk.bytes)) := by
  obtain ⟨hsound, hfile, hopen, -, hle, hstored⟩ := written file chunks
  unfold AllOrNothing transfer
  set d := (fresh file).writes chunks
  rcases hsound with ⟨hisOpen, bytes, hbytes⟩ | ⟨hclosed, hnone, -⟩
  · have hopens := hopen.mp hisOpen
    have hnever : ¬∀ c ∈ chunks, ¬c.Opens := by
      intro h
      obtain ⟨c, hc, hcopens⟩ := hopens
      exact h c hc hcopens
    rw [hbytes, Option.getD_some] at hle hstored
    by_cases herror : error = 0
    · subst herror
      cases hrenames : e.renames with
      | true =>
        rw [done_rename hisOpen hbytes hrenames]
        rw [← hstored]
        simp [hnever, hopens, flushed_eq_iff hle]
      | false =>
        rw [done_throws hisOpen hbytes hrenames]
        simp [hnever, CURLE_WRITE_ERROR]
    · rw [done_error hisOpen herror]
      simp [herror, hfile]
  · have hnever : ∀ c ∈ chunks, ¬c.Opens := by
      intro c hc hcopens
      rw [hopen.mpr ⟨c, hc, hcopens⟩] at hclosed
      cases hclosed
    have hopens : ¬∃ c ∈ chunks, c.Opens := by
      rintro ⟨c, hc, hcopens⟩
      exact hnever c hc hcopens
    rw [done_closed hclosed]
    by_cases herror : error = 0
    · simpa [herror, hfile, hnone, hopens] using fun _ => hnever
    · simp [herror, hfile, hnone]

/-- An empty body leaves no file, a flush that fails leaves a short one, and a rename that
fails leaves the temporary file. -/
theorem not_all_or_nothing :
    ¬AllOrNothing none [] (transfer none [] 0 ⟨none, true⟩) ∧
      ¬AllOrNothing none [⟨[1, 2], fun _ => .opened, none⟩]
        (transfer none [⟨[1, 2], fun _ => .opened, none⟩] 0 ⟨some 1, true⟩) ∧
      ¬AllOrNothing none [⟨[1, 2], fun _ => .opened, none⟩]
        (transfer none [⟨[1, 2], fun _ => .opened, none⟩] 0 ⟨none, false⟩) := by
  unfold AllOrNothing
  decide

end Downloader

end NetComponents.Curl
