import NetComponents.Livecapture.Replay
import NetComponents.Livecapture.VoIPCapture

/-!
# Sharing parsers

`Factory::create` gives the sniffers of a link layer one parser of the classes `IP`, `TCP`, `UDP`
and `Raw`, and a new one of the classes that keep a context. A parser of the model is a number
into the list of all that have been created. The reassembly library is a parameter.
-/

namespace NetComponents.Pcap

open Library

/-- A parser with its context. -/
inductive Object (ρ : Type) where
  | plain (parser : Parser) (datalink : ℤ)
  | tcpstream (datalink : ℤ) (r : ρ) (base : TCPReassembler)
  | voip (datalink : ℤ) (r : ρ) (v : VoIP)

/-- The objects that have been created, those of the maps `ParserMap<P>`, and the object `raw`. -/
structure Factory (ρ : Type) where
  objects : List (Object ρ) := []
  m_ : Parser → ℤ → Option ℕ := fun _ _ => none
  raw : Option ℕ := none

variable {ρ : Type}

namespace Object

/-- `packets`. The reassembly library is told the link layer. -/
def packets (snappy : Snappy) (lib : ℤ → Reassembly ρ) (data : Bytes) (ts : Timeval) :
    Object ρ → Object ρ × Exec (List Packet)
  | .plain parser datalink =>
    (.plain parser datalink, ((IParser.ofPayload (parser.payload datalink)).packets () data ts).2)
  | .tcpstream datalink r base =>
    let (r, callbacks) := (lib datalink).reassemblePacket r data ts
    let (base, packets) := base.packets ⟨callbacks, ts⟩
    (.tcpstream datalink r base, .ok packets)
  | .voip datalink r v =>
    let (t, result) := (IParser.voip snappy (lib datalink)).packets (r, v) data ts
    (.voip datalink t.1 t.2, result)

/-- A parser that keeps no context. -/
def Plain : Object ρ → Prop
  | .plain _ _ => True
  | _ => False

/-- A parser of one's own, of the class that the type stands for. -/
def new (init : ρ) (type : String) (datalink : ℤ) : Object ρ :=
  if type = "ip" then .plain .ip datalink
  else if type = "tcp" then .plain .tcp datalink
  else if type = "udp" then .plain .udp datalink
  else if type = "tcpstream" then .tcpstream datalink init .fresh
  else if type = "voip" then .voip datalink init .fresh
  else .plain .raw 0

theorem packets_plain_iff {snappy : Snappy} {lib : ℤ → Reassembly ρ} {data : Bytes}
    {ts : Timeval} (o : Object ρ) : (o.packets snappy lib data ts).1.Plain ↔ o.Plain := by
  cases o <;> exact Iff.rfl

theorem plain_new_iff {init : ρ} {type : String} {datalink : ℤ} :
    (new init type datalink).Plain ↔ type ≠ "tcpstream" ∧ type ≠ "voip" := by
  unfold new
  split_ifs <;> simp_all [Plain]

/-- What a parser makes of a list of frames. -/
def feed (snappy : Snappy) (lib : ℤ → Reassembly ρ) (o : Object ρ) :
    List (Bytes × Timeval) → Object ρ × List (Exec (List Packet))
  | [] => (o, [])
  | x :: frames =>
    let r := feed snappy lib (o.packets snappy lib x.1 x.2).1 frames
    (r.1, (o.packets snappy lib x.1 x.2).2 :: r.2)

end Object

namespace Factory

variable (init : ρ)

/-- `std::make_shared` -/
def make (f : Factory ρ) (o : Object ρ) : Factory ρ × ℕ :=
  ({ f with objects := f.objects ++ [o] }, f.objects.length)

/-- `ParserMap<P>::get` -/
def get (f : Factory ρ) (parser : Parser) (datalink : ℤ) : Factory ρ × ℕ :=
  match f.m_ parser datalink with
  | some i => (f, i)
  | none =>
    let (f', i) := f.make (.plain parser datalink)
    ({ f' with m_ := fun p d => if p = parser ∧ d = datalink then some i else f'.m_ p d }, i)

def create (f : Factory ρ) (type : String) (datalink : ℤ) : Factory ρ × ℕ :=
  if type = "ip" then f.get .ip datalink
  else if type = "tcp" then f.get .tcp datalink
  else if type = "udp" then f.get .udp datalink
  else if type = "tcpstream" then f.make (.tcpstream datalink init .fresh)
  else if type = "voip" then f.make (.voip datalink init .fresh)
  else
    match f.raw with
    | some i => (f, i)
    | none =>
      let (f', i) := f.make (.plain .raw 0)
      ({ f' with raw := some i }, i)

/-- The parser of a class without a context that the factory has for a link layer. -/
def shared (f : Factory ρ) (parser : Parser) (datalink : ℤ) : Option ℕ :=
  if parser = .raw then f.raw else f.m_ parser datalink

/-- The shared parsers are of their class. -/
structure Sound (f : Factory ρ) : Prop where
  m_ : ∀ parser datalink i, f.m_ parser datalink = some i →
    f.objects[i]? = some (.plain parser datalink)
  raw : ∀ i, f.raw = some i → f.objects[i]? = some (.plain .raw 0)

/-- What `create` returns: a parser of the class, either new or one without a context. -/
structure Creates (f : Factory ρ) (o : Object ρ) (r : Factory ρ × ℕ) : Prop where
  sound : r.1.Sound
  object : r.1.objects[r.2]? = some o
  shared : (r.1.objects = f.objects ∧ o.Plain) ∨
    (r.1.objects = f.objects ++ [o] ∧ r.2 = f.objects.length)

variable {f : Factory ρ}

theorem Sound.make (hf : f.Sound) (o : Object ρ) : Creates f o (f.make o) where
  sound := by
    constructor
    · intro parser datalink i hi
      have hold := hf.m_ parser datalink i hi
      exact (List.getElem?_append_left (List.getElem?_eq_some_iff.mp hold).1).trans hold
    · intro i hi
      have hold := hf.raw i hi
      exact (List.getElem?_append_left (List.getElem?_eq_some_iff.mp hold).1).trans hold
  object := List.getElem?_concat_length
  shared := Or.inr ⟨rfl, rfl⟩

theorem Sound.get (hf : f.Sound) (parser : Parser) (datalink : ℤ) :
    Creates f (.plain parser datalink) (f.get parser datalink) := by
  unfold Factory.get
  cases hm : f.m_ parser datalink with
  | some i => exact ⟨hf, hf.m_ _ _ _ hm, Or.inl ⟨rfl, trivial⟩⟩
  | none =>
    have hmade := hf.make (.plain parser datalink)
    refine ⟨⟨fun p d i hi => ?_, hmade.sound.raw⟩, hmade.object, hmade.shared⟩
    have hstored : (if p = parser ∧ d = datalink then some f.objects.length else f.m_ p d) =
      some i := hi
    split_ifs at hstored with hpd
    · obtain ⟨rfl, rfl⟩ := hpd
      cases hstored
      exact hmade.object
    · exact hmade.sound.m_ p d i hstored

theorem Sound.create (hf : f.Sound) (type : String) (datalink : ℤ) :
    Creates f (.new init type datalink) (f.create init type datalink) := by
  unfold Factory.create Object.new
  split_ifs
  · exact hf.get _ _
  · exact hf.get _ _
  · exact hf.get _ _
  · exact hf.make _
  · exact hf.make _
  · cases hraw : f.raw with
    | some i => exact ⟨hf, hf.raw i hraw, Or.inl ⟨rfl, trivial⟩⟩
    | none =>
      have hmade := hf.make (.plain .raw 0)
      refine ⟨⟨hmade.sound.m_, fun i hi => ?_⟩, hmade.object, hmade.shared⟩
      cases hi
      exact hmade.object

/-- A shared parser stays the one of its class and link layer. -/
theorem shared_create {parser : Parser} {datalink : ℤ} {i : ℕ}
    (h : f.shared parser datalink = some i) (type : String) (link : ℤ) :
    (f.create init type link).1.shared parser datalink = some i := by
  have hget : ∀ p, (f.get p link).1.shared parser datalink = some i := by
    intro p
    unfold Factory.get
    cases hm : f.m_ p link with
    | some j => exact h
    | none =>
      unfold shared at h ⊢
      split_ifs at h ⊢ with hraw
      · exact h
      · have hne : ¬(parser = p ∧ datalink = link) := by
          rintro ⟨rfl, rfl⟩
          cases hm.symm.trans h
        exact (if_neg hne).trans h
  unfold Factory.create
  split_ifs
  · exact hget _
  · exact hget _
  · exact hget _
  · exact h
  · exact h
  · cases hraw : f.raw with
    | some j => exact h
    | none =>
      unfold shared at h ⊢
      split_ifs at h ⊢ with hparser
      · cases hraw.symm.trans h
      · exact h

/-- A parser without a context that `create` returns is the shared one. -/
theorem create_shared {type : String} {link : ℤ} {parser : Parser} {datalink : ℤ}
    (h : Object.new init type link = .plain parser datalink) :
    (f.create init type link).1.shared parser datalink = some (f.create init type link).2 := by
  have hget : ∀ p, p ≠ .raw → Object.plain (ρ := ρ) p link = .plain parser datalink →
      (f.get p link).1.shared parser datalink = some (f.get p link).2 := by
    rintro p hp ⟨⟩
    unfold Factory.get shared
    rw [if_neg hp]
    cases hm : f.m_ parser link with
    | some j => exact hm
    | none => exact if_pos ⟨rfl, rfl⟩
  unfold Factory.create
  unfold Object.new at h
  split_ifs at h ⊢
  · exact hget _ nofun h
  · exact hget _ nofun h
  · exact hget _ nofun h
  · cases h
    unfold shared
    rw [if_pos rfl]
    cases hraw : f.raw with
    | some j => exact hraw
    | none => rfl

end Factory

namespace Object

variable {snappy : Snappy} {lib : ℤ → Reassembly ρ}

theorem Plain.packets_eq {o : Object ρ} (h : o.Plain) (data : Bytes) (ts : Timeval) :
    (o.packets snappy lib data ts).1 = o := by
  cases o with
  | plain parser datalink => rfl
  | tcpstream datalink r base => exact h.elim
  | voip datalink r v => exact h.elim

theorem feed_snoc (o : Object ρ) (frames : List (Bytes × Timeval)) (x : Bytes × Timeval) :
    o.feed snappy lib (frames ++ [x]) =
      (((o.feed snappy lib frames).1.packets snappy lib x.1 x.2).1,
        (o.feed snappy lib frames).2 ++
          [((o.feed snappy lib frames).1.packets snappy lib x.1 x.2).2]) := by
  induction frames generalizing o with
  | nil => rfl
  | cons y frames ih => simp [feed, ih]

theorem feed_plain_iff (o : Object ρ) (frames : List (Bytes × Timeval)) :
    (o.feed snappy lib frames).1.Plain ↔ o.Plain := by
  induction frames generalizing o with
  | nil => exact Iff.rfl
  | cons x frames ih => exact (ih _).trans o.packets_plain_iff

theorem Plain.feed_eq {o : Object ρ} (h : o.Plain) (frames : List (Bytes × Timeval)) :
    (o.feed snappy lib frames).1 = o := by
  induction frames with
  | nil => rfl
  | cons x frames ih =>
    rw [feed, h.packets_eq]
    exact ih

end Object

/-- The factory with the parser of each sniffer that has been created. -/
structure Sniffing (ρ : Type) where
  factory : Factory ρ := {}
  parsers : List ℕ := []

namespace Sniffing

/-- A sniffer is constructed, for a type of parser and the link layer of its capture; or it passes
a frame to its parser. -/
inductive Event where
  | create (type : String) (datalink : ℤ)
  | packets (k : ℕ) (data : Bytes) (ts : Timeval)
  deriving DecidableEq, Repr

/-- There is no such sniffer. -/
inductive Fault where
  | disabled
  deriving DecidableEq, Repr

variable (snappy : Snappy) (lib : ℤ → Reassembly ρ) (init : ρ)

def step (s : Sniffing ρ) :
    Event → Except Fault (Sniffing ρ × List (ℕ × Exec (List Packet)))
  | .create type datalink =>
    let (factory, i) := s.factory.create init type datalink
    .ok (⟨factory, s.parsers ++ [i]⟩, [])
  | .packets k data ts =>
    match s.parsers[k]? with
    | none => .error .disabled
    | some i =>
      match s.factory.objects[i]? with
      | none => .error .disabled
      | some o =>
        let (o', result) := o.packets snappy lib data ts
        .ok ({ s with factory := { s.factory with objects := s.factory.objects.set i o' } },
          [(k, result)])

def machine : Machine Fault (Sniffing ρ) Event (ℕ × Exec (List Packet)) :=
  ⟨step snappy lib init⟩

/-- The types and the link layers of the sniffers, in order. -/
def created (events : List Event) : List (String × ℤ) :=
  events.filterMap fun
    | .create type datalink => some (type, datalink)
    | .packets _ _ _ => none

/-- The frames of a sniffer. -/
def frames (k : ℕ) (events : List Event) : List (Bytes × Timeval) :=
  events.filterMap fun
    | .create _ _ => none
    | .packets j data ts => if j = k then some (data, ts) else none

/-- Each sniffer has seen what a parser of its own would have made of its frames, and its parser is
in the state of that one. -/
structure Isolated (events : List Event) (out : List (ℕ × Exec (List Packet)))
    (s : Sniffing ρ) : Prop where
  sound : s.factory.Sound
  length : s.parsers.length = (created events).length
  early : ∀ k, s.parsers.length ≤ k → frames k events = [] ∧ Machine.project k out = []
  own : ∀ k type datalink, (created events)[k]? = some (type, datalink) →
    ∃ i, s.parsers[k]? = some i ∧
      s.factory.objects[i]? =
        some ((Object.new init type datalink).feed snappy lib (frames k events)).1 ∧
      Machine.project k out =
        ((Object.new init type datalink).feed snappy lib (frames k events)).2
  alone : ∀ (j k i : ℕ) (o : Object ρ), j ≠ k → s.parsers[j]? = some i →
    s.parsers[k]? = some i → s.factory.objects[i]? = some o → o.Plain
  listed : ∀ (k : ℕ) (type : String) (link : ℤ) (parser : Parser) (datalink : ℤ),
    (created events)[k]? = some (type, link) →
    Object.new init type link = .plain parser datalink →
    ∃ i, s.parsers[k]? = some i ∧ s.factory.shared parser datalink = some i

variable {snappy lib init} {s : Sniffing ρ} {events : List Event}
  {out : List (ℕ × Exec (List Packet))}

@[simp] theorem created_snoc_create (events : List Event) (type : String) (datalink : ℤ) :
    created (events ++ [.create type datalink]) = created events ++ [(type, datalink)] :=
  List.filterMap_append

@[simp] theorem created_snoc_packets (events : List Event) (k : ℕ) (data : Bytes)
    (ts : Timeval) : created (events ++ [.packets k data ts]) = created events := by
  simp [created]

@[simp] theorem frames_snoc_create (events : List Event) (type : String) (datalink : ℤ) (k : ℕ) :
    frames k (events ++ [.create type datalink]) = frames k events := by
  simp [frames]

@[simp] theorem frames_snoc_self (events : List Event) (k : ℕ) (data : Bytes) (ts : Timeval) :
    frames k (events ++ [.packets k data ts]) = frames k events ++ [(data, ts)] := by
  simp [frames]

theorem frames_snoc_ne {j k : ℕ} (hjk : j ≠ k) (events : List Event) (data : Bytes)
    (ts : Timeval) : frames k (events ++ [.packets j data ts]) = frames k events := by
  simp [frames, hjk]

theorem getElem?_concat_eq_some_iff {α : Type*} {l : List α} {a b : α} {k : ℕ} :
    (l ++ [a])[k]? = some b ↔ l[k]? = some b ∨ (k = l.length ∧ b = a) := by
  rcases Nat.lt_trichotomy k l.length with hk | rfl | hk
  · simp [List.getElem?_append_left hk, hk.ne]
  · simp [eq_comm]
  · simp [hk.ne', Nat.le_of_lt hk, List.getElem?_append_right, Nat.sub_ne_zero_of_lt hk]

/-- The parser of a sniffer is an object of the factory. -/
theorem Isolated.object (h : Isolated snappy lib init events out s) {k i : ℕ}
    (hk : s.parsers[k]? = some i) : ∃ o, s.factory.objects[i]? = some o := by
  have hlt : k < (created events).length := by
    rw [← h.length]
    exact (List.getElem?_eq_some_iff.mp hk).1
  obtain ⟨i', hi', ho, -⟩ := h.own k _ _ (List.getElem?_eq_getElem hlt)
  obtain rfl : i = i' := Option.some.inj (hk.symm.trans hi')
  exact ⟨_, ho⟩

theorem Isolated.create (h : Isolated snappy lib init events out s) (type : String)
    (datalink : ℤ) :
    Isolated snappy lib init (events ++ [.create type datalink]) out
      ⟨(s.factory.create init type datalink).1,
        s.parsers ++ [(s.factory.create init type datalink).2]⟩ := by
  have hcreates := h.sound.create init type datalink
  have hkept : ∀ (j : ℕ) (o : Object ρ), s.factory.objects[j]? = some o →
      (s.factory.create init type datalink).1.objects[j]? = some o := by
    intro j o ho
    rcases hcreates.shared with ⟨hsame, -⟩ | ⟨hnew, -⟩
    · rwa [hsame]
    · rw [hnew]
      exact (List.getElem?_append_left (List.getElem?_eq_some_iff.mp ho).1).trans ho
  constructor
  · exact hcreates.sound
  · simp [h.length]
  · intro k hk
    rw [frames_snoc_create]
    rw [List.length_append] at hk
    exact h.early k (by omega)
  · intro k t d hk
    rw [created_snoc_create, getElem?_concat_eq_some_iff] at hk
    rw [frames_snoc_create]
    rcases hk with hk | ⟨rfl, hnew⟩
    · obtain ⟨i, hi, ho, hout⟩ := h.own k t d hk
      exact ⟨i, getElem?_concat_eq_some_iff.mpr (Or.inl hi), hkept _ _ ho, hout⟩
    · cases hnew
      rw [← h.length]
      obtain ⟨hframes, hproject⟩ := h.early _ le_rfl
      rw [hframes, hproject]
      exact ⟨_, List.getElem?_concat_length, hcreates.object, rfl⟩
  · -- a sniffer that is older than this one has another parser, or one without a context
    have hnew : ∀ (j i : ℕ) (o : Object ρ), s.parsers[j]? = some i →
        i = (s.factory.create init type datalink).2 →
        (s.factory.create init type datalink).1.objects[i]? = some o → o.Plain := by
      rintro j i o hj rfl ho
      rcases hcreates.shared with ⟨-, hplain⟩ | ⟨-, hi⟩
      · rw [hcreates.object] at ho
        cases ho
        exact hplain
      · obtain ⟨o', ho'⟩ := h.object hj
        rw [hi] at ho'
        exact absurd (List.getElem?_eq_some_iff.mp ho').1 (Nat.lt_irrefl _)
    intro j k i o hjk hj hk ho
    rcases getElem?_concat_eq_some_iff.mp hj with hj | ⟨rfl, hi⟩
    · rcases getElem?_concat_eq_some_iff.mp hk with hk | ⟨-, hi⟩
      · obtain ⟨o', ho'⟩ := h.object hj
        cases (hkept _ _ ho').symm.trans ho
        exact h.alone j k i o hjk hj hk ho'
      · exact hnew j i o hj hi ho
    · rcases getElem?_concat_eq_some_iff.mp hk with hk | ⟨rfl, -⟩
      · exact hnew k i o hk hi ho
      · exact absurd rfl hjk
  · intro k t d parser link hk hplain
    rw [created_snoc_create, getElem?_concat_eq_some_iff] at hk
    rcases hk with hk | ⟨rfl, hnew⟩
    · obtain ⟨i, hi, hshared⟩ := h.listed k t d parser link hk hplain
      exact ⟨i, getElem?_concat_eq_some_iff.mpr (Or.inl hi), Factory.shared_create init hshared _ _⟩
    · cases hnew
      rw [← h.length]
      exact ⟨_, List.getElem?_concat_length, Factory.create_shared init hplain⟩

theorem Isolated.packets (h : Isolated snappy lib init events out s) {k i : ℕ} {o : Object ρ}
    (hk : s.parsers[k]? = some i) (ho : s.factory.objects[i]? = some o) (data : Bytes)
    (ts : Timeval) :
    Isolated snappy lib init (events ++ [.packets k data ts])
      (out ++ [(k, (o.packets snappy lib data ts).2)])
      { s with
        factory := { s.factory with
          objects := s.factory.objects.set i (o.packets snappy lib data ts).1 } } := by
  have hi : i < s.factory.objects.length := (List.getElem?_eq_some_iff.mp ho).1
  have hset : (s.factory.objects.set i (o.packets snappy lib data ts).1)[i]? =
      some (o.packets snappy lib data ts).1 := List.getElem?_set_self hi
  -- what is not the parser of this sniffer, or has no context, stays as it is
  have hkept : ∀ (j : ℕ) (o' : Object ρ), s.factory.objects[j]? = some o' →
      (j = i → o'.Plain) →
      (s.factory.objects.set i (o.packets snappy lib data ts).1)[j]? = some o' := by
    intro j o' ho' hplain
    by_cases hji : j = i
    · subst hji
      cases ho.symm.trans ho'
      rw [hset, (hplain rfl).packets_eq]
    · rwa [List.getElem?_set_ne (Ne.symm hji)]
  constructor
  · exact ⟨fun parser datalink j hj => hkept _ _ (h.sound.m_ parser datalink j hj) fun _ => trivial,
      fun j hj => hkept _ _ (h.sound.raw j hj) fun _ => trivial⟩
  · rw [created_snoc_packets]
    exact h.length
  · intro j hj
    have hjk : k ≠ j := by
      rintro rfl
      exact absurd (List.getElem?_eq_some_iff.mp hk).1 (Nat.not_lt.mpr hj)
    rw [frames_snoc_ne hjk, Machine.project_append, Machine.project_cons_ne hjk]
    simpa [Machine.project] using h.early j hj
  · intro j t d hj
    rw [created_snoc_packets] at hj
    obtain ⟨i', hi', ho', hproject⟩ := h.own j t d hj
    by_cases hjk : k = j
    · subst hjk
      obtain rfl : i = i' := Option.some.inj (hk.symm.trans hi')
      cases ho.symm.trans ho'
      refine ⟨i, hk, ?_, ?_⟩
      · rw [frames_snoc_self, Object.feed_snoc]
        exact hset
      · rw [frames_snoc_self, Object.feed_snoc, Machine.project_append, hproject,
          Machine.project_cons_self]
        rfl
    · refine ⟨i', hi', ?_, ?_⟩
      · rw [frames_snoc_ne hjk]
        refine hkept _ _ ho' ?_
        rintro rfl
        exact h.alone k j i' _ hjk hk hi' ho'
      · rw [frames_snoc_ne hjk, Machine.project_append, Machine.project_cons_ne hjk, hproject]
        exact List.append_nil _
  · intro j j' i' o' hjj' hj hj' ho'
    by_cases hii' : i' = i
    · subst hii'
      have hplain := h.alone j j' i' o hjj' hj hj' ho
      cases hset.symm.trans ho'
      rwa [hplain.packets_eq]
    · rw [List.getElem?_set_ne (Ne.symm hii')] at ho'
      exact h.alone j j' i' o' hjj' hj hj' ho'
  · rw [created_snoc_packets]
    exact h.listed

theorem Isolated.fresh : Isolated snappy lib init [] [] {} where
  sound := ⟨by simp, by simp⟩
  length := rfl
  early k _ := ⟨rfl, rfl⟩
  own := by simp [created]
  alone := by simp
  listed := by simp [created]

theorem Isolated.step (h : Isolated snappy lib init events out s) {e : Event} {s' : Sniffing ρ}
    {o : List (ℕ × Exec (List Packet))}
    (hstep : s.step snappy lib init e = .ok (s', o)) :
    Isolated snappy lib init (events ++ [e]) (out ++ o) s' := by
  cases e with
  | create type datalink =>
    cases hstep
    rw [List.append_nil]
    exact h.create type datalink
  | packets k data ts =>
    cases hk : s.parsers[k]? with
    | none => simp [Sniffing.step, hk] at hstep
    | some i =>
      obtain ⟨object, ho⟩ := h.object hk
      simp only [Sniffing.step, hk, ho, Except.ok.injEq, Prod.mk.injEq] at hstep
      obtain ⟨rfl, rfl⟩ := hstep
      exact h.packets hk ho data ts

/-- Two sniffers have the same parser exactly if their types stand for one class without a context,
on one link layer. -/
theorem Isolated.same_iff (h : Isolated snappy lib init events out s) {j k : ℕ} (hjk : j ≠ k)
    {t t' : String} {d d' : ℤ} (hj : (created events)[j]? = some (t, d))
    (hk : (created events)[k]? = some (t', d')) :
    s.parsers[j]? = s.parsers[k]? ↔
      (Object.new init t d).Plain ∧ Object.new init t d = Object.new init t' d' := by
  obtain ⟨i, hi, ho, -⟩ := h.own j t d hj
  obtain ⟨i', hi', ho', -⟩ := h.own k t' d' hk
  constructor
  · intro hsame
    obtain rfl : i = i' := Option.some.inj (hi.symm.trans (hsame.trans hi'))
    have hplain := h.alone j k i _ hjk hi hi' ho
    have hplain' := h.alone j k i _ hjk hi hi' ho'
    rw [Object.feed_plain_iff] at hplain hplain'
    rw [hplain.feed_eq] at ho
    rw [hplain'.feed_eq] at ho'
    exact ⟨hplain, Option.some.inj (ho.symm.trans ho')⟩
  · rintro ⟨hplain, hsame⟩
    cases hnew : Object.new init t d with
    | plain parser link =>
      obtain ⟨n, hn, hshared⟩ := h.listed j t d parser link hj hnew
      obtain ⟨n', hn', hshared'⟩ := h.listed k t' d' parser link hk (hsame.symm.trans hnew)
      rw [hn, hn']
      exact hshared.symm.trans hshared'
    | tcpstream link r base =>
      rw [hnew] at hplain
      exact hplain.elim
    | voip link r v =>
      rw [hnew] at hplain
      exact hplain.elim

/-- In any order of the constructions and of the frames of any number of sniffers: two sniffers
have one object for a parser exactly if they have the same class `IP`, `TCP`, `UDP` or `Raw`, on one
link layer (`Raw` on any), and so never share a `tcpstream` or a `voip`; still a sniffer gets from
its parser what a parser of its own would have made of its frames. -/
theorem shared_parsers_isolated (h : (machine snappy lib init).run {} events = .ok (s, out))
    {k : ℕ} {type : String} {datalink : ℤ} (hk : (created events)[k]? = some (type, datalink)) :
    (∃ i, s.parsers[k]? = some i) ∧
    (∀ j type' datalink', j ≠ k → (created events)[j]? = some (type', datalink') →
      (s.parsers[j]? = s.parsers[k]? ↔
        type ≠ "tcpstream" ∧ type ≠ "voip" ∧
          Object.new init type datalink = Object.new init type' datalink')) ∧
    Machine.project k out =
      ((Object.new init type datalink).feed snappy lib (frames k events)).2 := by
  have hisolated : Isolated snappy lib init events out s :=
    (machine snappy lib init).run_invariant (Isolated snappy lib init)
      (fun _ _ _ _ _ _ hs hstep => hs.step hstep) Isolated.fresh h
  obtain ⟨i, hi, -, hproject⟩ := hisolated.own k type datalink hk
  refine ⟨⟨i, hi⟩, ?_, hproject⟩
  intro j type' datalink' hjk hj
  rw [eq_comm, hisolated.same_iff (Ne.symm hjk) hk hj, Object.plain_new_iff, and_assoc]

/-- Two sniffers of one link layer share a parser of the class `UDP`, and get a frame each. -/
theorem shared_parsers_isolated_udp :
    let events : List Event := [.create "udp" 12, .create "tcpstream" 12, .create "udp" 12,
      .packets 2 [1, 2, 3] ⟨0, 0⟩, .packets 1 [4] ⟨0, 0⟩, .packets 0 [5, 6] ⟨0, 0⟩]
    let lib : ℤ → Reassembly Unit := fun _ => ⟨fun r _ _ => (r, [])⟩
    ∃ s out, (machine (fun _ _ => .other) lib ()).run {} events = .ok (s, out) ∧
      s.parsers[0]? = s.parsers[2]? ∧
      Machine.project 2 out = ((Object.new () "udp" 12).feed (fun _ _ => .other) lib
        (frames 2 events)).2 := by
  intro events lib
  obtain ⟨s, out, hrun⟩ : ∃ s out, (machine (fun _ _ => .other) lib ()).run {} events =
      .ok (s, out) := ⟨_, _, rfl⟩
  have hudp : (created events)[2]? = some ("udp", 12) := rfl
  obtain ⟨-, hsame, hproject⟩ := shared_parsers_isolated hrun hudp
  exact ⟨s, out, hrun, (hsame 0 "udp" 12 nofun rfl).mpr ⟨by decide, by decide, rfl⟩, hproject⟩

end Sniffing

end NetComponents.Pcap
