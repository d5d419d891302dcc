import NetComponents.Livecapture.Sniffers
import NetComponents.Pcap.Device

/-!
# The handles of a grabber

`Grabber::createSniffer` constructs a sniffer for the capture that the configuration has under a
name. The sniffers are shared and read on their own, and the last owner of one destroys it with its
capture. What the library and the other constructors answer is an input, and so is the parser.
-/

namespace NetComponents.Pcap

open Library Livecapture

/-- `Config::Capture` -/
structure Config.Capture where
  enabled : Bool := true
  interface : String := "lo"
  filter : String := "tcp dst port 5030"
  parser : String := "voip"
  deriving DecidableEq, Repr

/-- The map `captures`. -/
structure Config where
  captures : List (String × Config.Capture) := []
  deriving DecidableEq, Repr

def Config.capture (config : Config) (name : String) : Option Config.Capture :=
  match config.captures.lookup name with
  | some capture => some capture
  | none => if name = "" ∨ name = "default" then some {} else none

/-- `pcap::grabber::Grabber` with the devices of all the sniffers that it has created, and how far
each has read. The constructions are numbered, and a handle that one opens has its number. -/
structure Grabber (τ : Type) where
  sniffers : Sniffers := {}
  devices : List Device := []
  captures : List (Sniffer τ) := []
  opened : ℕ := 0

namespace Grabber

/-- A call of `sniffer`, with the state of the parser that a new one gets; an owner of a sniffer
shares it or lets go; a sniffer takes a step. -/
inductive Event (τ : Type) where
  | sniffer (capture : String) (a : Answers) (t : τ)
  | share (i : ℕ)
  | release (i : ℕ)
  | reads (i : ℕ) (e : Sniffer.Event)
  deriving DecidableEq, Repr

inductive Output where
  | lib (call : LibCall)
  | grabber (o : Sniffers.Output)
  | sniffer (i : ℕ) (o : Sniffer.Output)

/-- The calls of libpcap. -/
def libCalls (out : List Output) : List LibCall :=
  out.filterMap fun
    | .lib call => some call
    | _ => none

variable {τ : Type} (config : Config) (parser : IParser τ) (debug : Bool)

def isCaptureExists (capture : String) : Bool :=
  match config.capture capture with
  | some c => c.enabled
  | none => false

/-- What it returns is a sniffer on a device, or null, or an exception. -/
def createSniffer (a : Answers) (h : ℕ) (capture : String) :
    List LibCall × Except String (Option Device) :=
  match config.capture capture with
  | none => ([], .ok none)
  | some c =>
    if c.enabled = false then ([], .ok none)
    else
      let (calls, e) := Sniffer.new a h c.interface c.filter
      match e with
      | some what => (calls, .error what)
      | none => (calls, .ok (some ⟨Device.isfile c.interface, h⟩))

/-- What `livecapture::Grabber` sees of it. -/
def creation : Except String (Option Device) → Creation
  | .error what => .throws what
  | .ok none => .null
  | .ok (some _) => .sniffer

/-- The grabber with a new sniffer, if there is one. -/
def constructed (g : Grabber τ) (t : τ) : Except String (Option Device) → Grabber τ
  | .ok (some d) =>
    { g with devices := g.devices ++ [d], captures := g.captures ++ [.fresh d.offline t] }
  | _ => g

/-- `sniffer`, which calls `createSniffer` if there is no live sniffer of the name. -/
def sniffer (g : Grabber τ) (capture : String) (a : Answers) (t : τ) : Grabber τ × List Output :=
  let sname := Livecapture.Grabber.cname capture
  let (calls, result) := createSniffer config a g.opened sname
  let (sniffers, out) := g.sniffers.sniffer capture (creation result)
  if .createSniffer sname ∈ out then
    ({ g.constructed t result with sniffers, opened := g.opened + 1 },
      calls.map .lib ++ out.map .grabber)
  else ({ g with sniffers }, out.map .grabber)

/-- An owner of a sniffer lets go. The last one destroys it. -/
def released (g : Grabber τ) (i : ℕ) (sniffers : Sniffers) : Grabber τ × List LibCall :=
  match g.devices[i]? with
  | some d =>
    if sniffers.owners i = 0 then
      ({ g with sniffers, captures := g.captures.modify i Sniffer.delete }, Capture.delete d)
    else ({ g with sniffers }, [])
  | none => ({ g with sniffers }, [])

/-- There is no such step; the parser of a sniffer looks outside of a frame. -/
inductive Fault where
  | disabled
  | undefined
  deriving DecidableEq, Repr

def step (g : Grabber τ) : Event τ → Except Fault (Grabber τ × List Output)
  | .sniffer capture a t => .ok (g.sniffer config capture a t)
  | .share i =>
    match g.sniffers.step (.share i) with
    | .error .disabled => .error .disabled
    | .ok (sniffers, _) => .ok ({ g with sniffers }, [])
  | .release i =>
    match g.sniffers.step (.release i) with
    | .error .disabled => .error .disabled
    | .ok (sniffers, _) => .ok ((g.released i sniffers).1, (g.released i sniffers).2.map .lib)
  | .reads i e =>
    match g.devices[i]?, g.captures[i]? with
    | some d, some s =>
      if e = .destroy then .error .disabled
      else
        match Sniffer.step parser debug s e with
        | .error .disabled => .error .disabled
        | .error .undefined => .error .undefined
        | .ok (s', out) =>
          .ok ({ g with captures := g.captures.set i s' },
            (Sniffer.calls d.handle e).map .lib ++ out.map (.sniffer i))
    | _, _ => .error .disabled

def machine : Machine Fault (Grabber τ) (Event τ) Output := ⟨step config parser debug⟩

/-- A live sniffer of the name has this handle, with the interface and the filter of the
configuration. -/
def Uses (g : Grabber τ) (name : String) (h : ℕ) (x : Handle) : Prop :=
  ∃ i c, g.sniffers.Live i name ∧ g.devices[i]? = some ⟨Device.isfile c.interface, h⟩ ∧
    config.capture name = some c ∧ x = .ready c.interface c.filter

/-- The open handles are those of the live sniffers, one for each name that has one. -/
structure Exact (g : Grabber τ) (lib : Lib) : Prop where
  opened : ∀ h x, lib h = some x ↔ ∃ name, g.Uses config name h x
  one : ∀ name h h' x x', g.Uses config name h x → g.Uses config name h' x' → h = h'
  own : ∀ name name' h x x', g.Uses config name h x → g.Uses config name' h x' → name = name'

/-- The event constructs a live capture, and its constructor throws behind its stream. -/
def Tears (g : Grabber τ) : Event τ → Prop
  | .sniffer capture a _ =>
    (∀ i, ¬g.sniffers.Live i (Livecapture.Grabber.cname capture)) ∧
      ∃ c, config.capture (Livecapture.Grabber.cname capture) = some c ∧ c.enabled = true ∧
        a.Tears g.opened c.interface c.filter
  | _ => False

/-- The wait of a sniffer had completed when the sniffer was destroyed, and its handler runs. -/
def Late : Event τ → Prop
  | .reads _ (.late none) => True
  | _ => False

variable {config parser debug} {g : Grabber τ} {lib : Lib}

@[simp] theorem libCalls_lib (calls : List LibCall) : libCalls (calls.map .lib) = calls := by
  simp [libCalls]

@[simp] theorem libCalls_grabber (out : List Sniffers.Output) :
    libCalls (out.map .grabber) = [] := by
  simp [libCalls]

@[simp] theorem libCalls_sniffer (i : ℕ) (out : List Sniffer.Output) :
    libCalls (out.map (.sniffer i)) = [] := by
  simp [libCalls]

theorem libCalls_append (out out' : List Output) :
    libCalls (out ++ out') = libCalls out ++ libCalls out' := List.filterMap_append

/-- Between the events. -/
structure Owned (config : Config) (g : Grabber τ) (lib : Lib) : Prop where
  tracked : g.sniffers.Tracked
  length : g.devices.length = g.sniffers.names.length
  fresh : ∀ d ∈ g.devices, d.handle < g.opened
  distinct : (g.devices.map Device.handle).Nodup
  configured : ∀ (i : ℕ) (d : Device) (name : String), g.devices[i]? = some d →
    g.sniffers.names[i]? = some name →
    ∃ c, config.capture name = some c ∧ d.offline = Device.isfile c.interface
  captures : g.captures.length = g.devices.length
  destroyed : ∀ (i : ℕ) (s : Sniffer τ), g.captures[i]? = some s →
    (s.destroyed = false ↔ ∃ name, g.sniffers.Live i name)
  opened : ∀ h x, lib h = some x ↔ ∃ name, g.Uses config name h x

namespace Owned

/-- Two sniffers do not have one handle. -/
theorem index_eq (hg : Owned config g lib) {i j : ℕ} {d d' : Device}
    (hd : g.devices[i]? = some d) (hd' : g.devices[j]? = some d') (hh : d.handle = d'.handle) :
    i = j := by
  have hlt : i < (g.devices.map Device.handle).length := by
    rw [List.length_map]
    exact (List.getElem?_eq_some_iff.mp hd).1
  refine (List.getElem?_inj hlt hg.distinct).mp ?_
  rw [List.getElem?_map, List.getElem?_map, hd, hd']
  exact congrArg some hh

theorem exact (hg : Owned config g lib) : g.Exact config lib where
  opened := hg.opened
  one := by
    rintro name h h' x x' ⟨i, c, hi, hd, hc, -⟩ ⟨j, c', hj, hd', hc', -⟩
    obtain rfl := hg.tracked.unique hi hj
    obtain rfl : c = c' := Option.some.inj (hc.symm.trans hc')
    have hsame := Option.some.inj (hd.symm.trans hd')
    exact congrArg Device.handle hsame
  own := by
    rintro name name' h x x' ⟨i, c, hi, hd, -, -⟩ ⟨j, c', hj, hd', -, -⟩
    obtain rfl := hg.index_eq hd hd' rfl
    exact Option.some.inj (hi.1.symm.trans hj.1)

/-- The next construction has a number that is not in use. -/
theorem closed (hg : Owned config g lib) : lib g.opened = none := by
  rw [Option.eq_none_iff_forall_ne_some]
  intro x hx
  obtain ⟨name, i, c, -, hd, -⟩ := (hg.opened _ _).mp hx
  have hlt := hg.fresh _ (List.mem_of_getElem? hd)
  exact Nat.lt_irrefl _ hlt

/-- The sniffers that are live stay what they are. -/
theorem of_live (hg : Owned config g lib) {sniffers : Sniffers} {opened : ℕ}
    (hopened : g.opened ≤ opened) (htracked : sniffers.Tracked)
    (hnames : sniffers.names = g.sniffers.names)
    (hlive : ∀ i name, sniffers.Live i name ↔ g.sniffers.Live i name) :
    Owned config { g with sniffers, opened } lib where
  tracked := htracked
  length := by
    rw [hnames]
    exact hg.length
  fresh d hd := (hg.fresh d hd).trans_le hopened
  distinct := hg.distinct
  configured := by
    rw [hnames]
    exact hg.configured
  captures := hg.captures
  destroyed i s hs := by
    simp only [hlive]
    exact hg.destroyed i s hs
  opened h x := by
    rw [hg.opened]
    simp only [Uses, hlive]

theorem uses_create (hg : Owned config g lib) {sniffers : Sniffers} {name : String}
    {c : Config.Capture} (hc : config.capture name = some c) (opened : ℕ)
    (hlive : ∀ i n, sniffers.Live i n ↔
      g.sniffers.Live i n ∨ (i = g.sniffers.names.length ∧ n = name))
    (captures : List (Sniffer τ)) (n : String) (h : ℕ) (x : Handle) :
    Uses config
        ⟨sniffers, g.devices ++ [⟨Device.isfile c.interface, g.opened⟩], captures, opened⟩ n h x ↔
      g.Uses config n h x ∨ (n = name ∧ h = g.opened ∧ x = .ready c.interface c.filter) := by
  have hold : ∀ i n, g.sniffers.Live i n → i < g.devices.length := by
    intro i n hi
    rw [hg.length]
    exact (List.getElem?_eq_some_iff.mp hi.1).1
  constructor
  · rintro ⟨i, c', hi, hd, hc', rfl⟩
    rcases (hlive i n).mp hi with hi | ⟨rfl, rfl⟩
    · rw [List.getElem?_append_left (hold i n hi)] at hd
      exact Or.inl ⟨i, c', hi, hd, hc', rfl⟩
    · obtain rfl : c = c' := Option.some.inj (hc.symm.trans hc')
      rw [← hg.length, List.getElem?_concat_length] at hd
      cases hd
      exact Or.inr ⟨rfl, rfl, rfl⟩
  · rintro (⟨i, c', hi, hd, hc', rfl⟩ | ⟨rfl, rfl, rfl⟩)
    · refine ⟨i, c', (hlive i n).mpr (Or.inl hi), ?_, hc', rfl⟩
      exact (List.getElem?_append_left (hold i n hi)).trans hd
    · refine ⟨_, c, (hlive _ _).mpr (Or.inr ⟨rfl, rfl⟩), ?_, hc, rfl⟩
      rw [← hg.length]
      exact List.getElem?_concat_length

/-- A new sniffer, on the handle that its construction has opened. -/
theorem create (hg : Owned config g lib) {sniffers : Sniffers} {name : String}
    {c : Config.Capture} (hc : config.capture name = some c) (htracked : sniffers.Tracked)
    (hnames : sniffers.names = g.sniffers.names ++ [name])
    (hlive : ∀ i n, sniffers.Live i n ↔
      g.sniffers.Live i n ∨ (i = g.sniffers.names.length ∧ n = name)) (t : τ) :
    Owned config
      ⟨sniffers, g.devices ++ [⟨Device.isfile c.interface, g.opened⟩],
        g.captures ++ [.fresh (Device.isfile c.interface) t], g.opened + 1⟩
      (Function.update lib g.opened (some (.ready c.interface c.filter))) where
  tracked := htracked
  length := by simp [hnames, hg.length]
  fresh d hd := by
    rcases List.mem_append.mp hd with hold | hnew
    · exact Nat.lt_succ_of_lt (hg.fresh d hold)
    · rw [List.mem_singleton.mp hnew]
      exact Nat.lt_succ_self _
  distinct := by
    rw [List.map_append, List.nodup_append]
    refine ⟨hg.distinct, by simp, ?_⟩
    intro h hold h' hnew
    obtain ⟨d, hd, rfl⟩ := List.mem_map.mp hold
    have hlt := hg.fresh d hd
    obtain rfl : h' = g.opened := by simpa using hnew
    omega
  configured i d n hd hn := by
    rcases Nat.lt_or_ge i g.devices.length with hi | hi
    · rw [List.getElem?_append_left hi] at hd
      rw [hnames, List.getElem?_append_left (hg.length ▸ hi)] at hn
      exact hg.configured i d n hd hn
    · obtain rfl : i = g.devices.length := by
        have hlt := (List.getElem?_eq_some_iff.mp hd).1
        rw [List.length_append, List.length_singleton] at hlt
        omega
      rw [List.getElem?_concat_length] at hd
      rw [hnames, hg.length, List.getElem?_concat_length] at hn
      cases hd
      cases hn
      exact ⟨c, hc, rfl⟩
  captures := by simp [hg.captures]
  destroyed i s hs := by
    rcases Nat.lt_or_ge i g.captures.length with hi | hi
    · rw [List.getElem?_append_left hi] at hs
      have hne : i ≠ g.sniffers.names.length := by
        have hlength := hg.captures.trans hg.length
        omega
      rw [hg.destroyed i s hs]
      simp [hlive, hne]
    · obtain rfl : i = g.captures.length := by
        have hlt := (List.getElem?_eq_some_iff.mp hs).1
        rw [List.length_append, List.length_singleton] at hlt
        omega
      rw [List.getElem?_concat_length] at hs
      cases hs
      have hlast : sniffers.Live g.captures.length name :=
        (hlive _ _).mpr (Or.inr ⟨hg.captures.trans hg.length, rfl⟩)
      exact ⟨fun _ => ⟨name, hlast⟩, fun _ => rfl⟩
  opened h x := by
    simp only [hg.uses_create hc _ hlive]
    by_cases hh : h = g.opened
    · subst hh
      have hnone : ¬∃ n, g.Uses config n g.opened x := by
        rw [← hg.opened, hg.closed]
        simp
      rw [Function.update_self]
      constructor
      · rintro hx
        exact ⟨name, Or.inr ⟨rfl, rfl, (Option.some.inj hx).symm⟩⟩
      · rintro ⟨n, hold | ⟨-, -, rfl⟩⟩
        · exact absurd ⟨n, hold⟩ hnone
        · rfl
    · rw [Function.update_of_ne hh, hg.opened]
      simp [hh]

/-- A sniffer is destroyed with its handle. -/
theorem destroy (hg : Owned config g lib) {sniffers : Sniffers} {i : ℕ} {d : Device}
    (hd : g.devices[i]? = some d) (htracked : sniffers.Tracked)
    (hnames : sniffers.names = g.sniffers.names)
    (hlive : ∀ j n, sniffers.Live j n ↔ g.sniffers.Live j n ∧ j ≠ i) :
    Owned config { g with sniffers, captures := g.captures.modify i Sniffer.delete }
      (Function.update lib d.handle none) where
  tracked := htracked
  length := by
    rw [hnames]
    exact hg.length
  fresh := hg.fresh
  distinct := hg.distinct
  configured := by
    rw [hnames]
    exact hg.configured
  captures := by simp [hg.captures]
  destroyed j s hs := by
    dsimp only at hs
    rw [List.getElem?_modify] at hs
    obtain ⟨s', hs', rfl⟩ := Option.map_eq_some_iff.mp hs
    by_cases hij : i = j
    · subst hij
      simp [hlive, Sniffer.delete]
    · simp only [hij, if_false, hlive, Ne.symm hij, ne_eq, not_false_eq_true, and_true]
      exact hg.destroyed j s' hs'
  opened h x := by
    by_cases hh : h = d.handle
    · subst hh
      rw [Function.update_self]
      constructor
      · rintro ⟨⟩
      · rintro ⟨n, j, c, hj, hd', -, -⟩
        exact absurd (hg.index_eq hd' hd rfl) ((hlive j n).mp hj).2
    · rw [Function.update_of_ne hh, hg.opened]
      constructor
      · rintro ⟨n, j, c, hj, hd', hc, rfl⟩
        refine ⟨n, j, c, (hlive j n).mpr ⟨hj, ?_⟩, hd', hc, rfl⟩
        rintro rfl
        rw [hd] at hd'
        cases hd'
        exact hh rfl
      · rintro ⟨n, j, c, hj, hd', hc, rfl⟩
        exact ⟨n, j, c, ((hlive j n).mp hj).1, hd', hc, rfl⟩

/-- What a call of `createSniffer` does to the handles. -/
theorem createSniffer_spec (hclosed : lib g.opened = none) (name : String) (a : Answers)
    (htears : ∀ c, config.capture name = some c → c.enabled = true →
      ¬a.Tears g.opened c.interface c.filter) :
    (creation (createSniffer config a g.opened name).2 ≠ .sniffer ∧
      (∀ t, g.constructed t (createSniffer config a g.opened name).2 = g) ∧
      Lib.machine.run lib (createSniffer config a g.opened name).1 = .ok (lib, [])) ∨
    ∃ c, config.capture name = some c ∧
      (createSniffer config a g.opened name).2 =
        .ok (some ⟨Device.isfile c.interface, g.opened⟩) ∧
      Lib.machine.run lib (createSniffer config a g.opened name).1 =
        .ok (Function.update lib g.opened (some (.ready c.interface c.filter)), []) := by
  cases hc : config.capture name with
  | none =>
    have hcreate : createSniffer config a g.opened name = ([], .ok none) := by
      simp [createSniffer, hc]
    rw [hcreate]
    exact Or.inl ⟨by simp [creation], fun _ => rfl, rfl⟩
  | some c =>
    cases henabled : c.enabled with
    | false =>
      have hcreate : createSniffer config a g.opened name = ([], .ok none) := by
        simp [createSniffer, hc, henabled]
      rw [hcreate]
      exact Or.inl ⟨by simp [creation], fun _ => rfl, rfl⟩
    | true =>
      have hbuilds := builds_sniffer a c.interface c.filter hclosed (htears c hc henabled)
      rcases hnew : Sniffer.new a g.opened c.interface c.filter with ⟨calls, e⟩
      rw [hnew] at hbuilds
      cases e with
      | some what =>
        have hcreate : createSniffer config a g.opened name = (calls, .error what) := by
          simp [createSniffer, hc, henabled, hnew]
        rw [hcreate]
        exact Or.inl ⟨by simp [creation], fun _ => rfl, hbuilds⟩
      | none =>
        have hcreate : createSniffer config a g.opened name =
            (calls, .ok (some ⟨Device.isfile c.interface, g.opened⟩)) := by
          simp [createSniffer, hc, henabled, hnew]
        rw [hcreate]
        exact Or.inr ⟨c, rfl, rfl, hbuilds⟩

/-- A call for a capture that is live makes no call of the library. -/
theorem sniffer_live (hg : Owned config g lib) {capture : String} (a : Answers) (t : τ) {i : ℕ}
    (hi : g.sniffers.Live i (Livecapture.Grabber.cname capture)) :
    libCalls (g.sniffer config capture a t).2 = [] ∧
      Owned config (g.sniffer config capture a t).1 lib := by
  set touched := g.sniffers.touch (Livecapture.Grabber.cname capture)
  have htouched : touched.Tracked := hg.tracked.touch _
  have howned : 0 < touched.owners i := (Sniffers.live_touch.mpr hi).2
  have hcall : g.sniffer config capture a t =
      ({ g with sniffers := (touched.own i).clean },
        [Sniffers.Output.returned i].map .grabber) := by
    simp [sniffer, Sniffers.sniffer_live hg.tracked hi, touched]
  rw [hcall]
  refine ⟨libCalls_grabber _, ?_⟩
  refine hg.of_live le_rfl (htouched.own howned).clean (Sniffers.touch_names _ _) fun j name => ?_
  exact (Sniffers.live_own howned).trans Sniffers.live_touch

/-- A call for a capture that is not live calls `createSniffer`. -/
theorem sniffer_called (hg : Owned config g lib) {capture : String} (a : Answers) (t : τ)
    (hdead : ∀ i, ¬g.sniffers.Live i (Livecapture.Grabber.cname capture))
    {calls : List LibCall} {result : Except String (Option Device)}
    (hcreate : createSniffer config a g.opened (Livecapture.Grabber.cname capture) =
      (calls, result)) :
    g.sniffer config capture a t =
      ({ g.constructed t result with
          sniffers := (g.sniffers.sniffer capture (creation result)).1, opened := g.opened + 1 },
        calls.map .lib ++ (g.sniffers.sniffer capture (creation result)).2.map .grabber) := by
  have hcalled : .createSniffer (Livecapture.Grabber.cname capture) ∈
      (g.sniffers.sniffer capture (creation result)).2 := by
    by_cases hc : creation result = .sniffer
    · rw [hc]
      exact (Sniffers.sniffer_created hg.tracked hdead).1
    · exact (Sniffers.sniffer_failed hg.tracked hdead hc).1
  simp [sniffer, hcreate, hcalled]

/-- A call for a capture that is not live keeps the handles, unless it tears a descriptor. -/
theorem sniffer_dead (hg : Owned config g lib) {capture : String} {a : Answers} {t : τ}
    (hdead : ∀ i, ¬g.sniffers.Live i (Livecapture.Grabber.cname capture))
    (htears : ¬g.Tears config (.sniffer capture a t)) :
    ∃ lib', Lib.machine.run lib (libCalls (g.sniffer config capture a t).2) = .ok (lib', []) ∧
      Owned config (g.sniffer config capture a t).1 lib' := by
  have hspec := createSniffer_spec hg.closed (Livecapture.Grabber.cname capture) a
    fun c hc henabled ht => htears ⟨hdead, c, hc, henabled, ht⟩
  rcases hcreate : createSniffer config a g.opened (Livecapture.Grabber.cname capture) with
    ⟨calls, result⟩
  rw [hcreate] at hspec
  rw [hg.sniffer_called a t hdead hcreate, libCalls_append, libCalls_lib, libCalls_grabber,
    List.append_nil]
  have htracked := (Sniffers.sniffer_spec hg.tracked capture (creation result)).1
  rcases hspec with ⟨hfailed, hdevices, hrun⟩ | ⟨c, hc, rfl, hrun⟩
  · obtain ⟨-, hnames, hlive⟩ := Sniffers.sniffer_failed hg.tracked hdead hfailed
    refine ⟨lib, hrun, ?_⟩
    rw [hdevices t]
    exact hg.of_live (Nat.le_succ _) htracked hnames hlive
  · obtain ⟨-, hnames, hlive⟩ := Sniffers.sniffer_created hg.tracked hdead
    exact ⟨_, hrun, hg.create hc htracked hnames hlive t⟩

theorem sniffer_torn (hg : Owned config g lib) {capture : String} {a : Answers} {t : τ}
    (htears : g.Tears config (.sniffer capture a t)) :
    Lib.machine.run lib (libCalls (g.sniffer config capture a t).2) = .error .descriptor := by
  obtain ⟨hdead, c, hc, henabled, ht⟩ := htears
  have htorn := run_torn_sniffer a c.interface c.filter hg.closed ht
  rcases hcreate : createSniffer config a g.opened (Livecapture.Grabber.cname capture) with
    ⟨calls, result⟩
  have hcalls : calls = (Sniffer.new a g.opened c.interface c.filter).1 := by
    simp only [createSniffer, hc, henabled, Bool.true_eq_false, ↓reduceIte] at hcreate
    cases hnew : (Sniffer.new a g.opened c.interface c.filter).2 <;>
      simp only [hnew, Prod.mk.injEq] at hcreate <;>
      exact hcreate.1.symm
  rw [hg.sniffer_called a t hdead hcreate, libCalls_append, libCalls_lib, libCalls_grabber,
    List.append_nil, hcalls, htorn]

/-- The last owner of a sniffer closes its handle. -/
theorem release (hg : Owned config g lib) {i : ℕ} (hi : 0 < g.sniffers.owners i) :
    ∃ lib', Lib.machine.run lib (g.released i (g.sniffers.disown i)).2 = .ok (lib', []) ∧
      Owned config (g.released i (g.sniffers.disown i)).1 lib' := by
  have htracked := hg.tracked.disown hi
  have hnames : (g.sniffers.disown i).names = g.sniffers.names := rfl
  cases hd : g.devices[i]? with
  | none =>
    have hreleased : g.released i (g.sniffers.disown i) =
        ({ g with sniffers := g.sniffers.disown i }, []) := by
      simp [released, hd]
    rw [hreleased]
    refine ⟨lib, rfl, ?_⟩
    refine hg.of_live le_rfl htracked hnames fun j name => ?_
    rw [Sniffers.live_disown, and_iff_left_iff_imp]
    rintro hj rfl
    rw [List.getElem?_eq_none_iff, hg.length] at hd
    exact absurd (List.getElem?_eq_some_iff.mp hj.1).1 (Nat.not_lt.mpr hd)
  | some d =>
    by_cases hlast : g.sniffers.owners i = 1
    · obtain ⟨offline, h⟩ := d
      have hlt : i < g.sniffers.names.length := by
        rw [← hg.length]
        exact (List.getElem?_eq_some_iff.mp hd).1
      have hname := List.getElem?_eq_getElem hlt
      obtain ⟨c, hc, rfl⟩ := hg.configured i _ _ hd hname
      have hopen : lib h = some (.ready c.interface c.filter) :=
        (hg.opened _ _).mpr ⟨_, i, c, ⟨hname, hi⟩, hd, hc, rfl⟩
      have hreleased : g.released i (g.sniffers.disown i) =
          ({ g with
              sniffers := g.sniffers.disown i, captures := g.captures.modify i Sniffer.delete },
            Capture.delete ⟨Device.isfile c.interface, h⟩) := by
        have hzero : (g.sniffers.disown i).owners i = 0 := by simp [Sniffers.disown, hlast]
        simp [released, hd, hzero]
      rw [hreleased]
      refine ⟨_, run_capture_delete c.interface c.filter hopen,
        hg.destroy hd htracked hnames fun j name => ?_⟩
      rw [Sniffers.live_disown, hlast]
      simp
    · have hreleased : g.released i (g.sniffers.disown i) =
          ({ g with sniffers := g.sniffers.disown i }, []) := by
        have hsome : (g.sniffers.disown i).owners i ≠ 0 := by
          have howners : (g.sniffers.disown i).owners i = g.sniffers.owners i - 1 := by
            simp [Sniffers.disown]
          omega
        simp [released, hd, hsome]
      rw [hreleased]
      refine ⟨lib, rfl, hg.of_live le_rfl htracked hnames fun j name => ?_⟩
      · rw [Sniffers.live_disown, and_iff_left_iff_imp]
        rintro - rfl
        omega

/-- The device of a sniffer that is not destroyed has an open handle. -/
theorem open_of_live (hg : Owned config g lib) {i : ℕ} {d : Device} {s : Sniffer τ}
    (hd : g.devices[i]? = some d) (hs : g.captures[i]? = some s) (hlive : s.destroyed = false) :
    ∃ x, lib d.handle = some x := by
  obtain ⟨name, hname⟩ := (hg.destroyed i s hs).mp hlive
  obtain ⟨offline, h⟩ := d
  obtain ⟨c, hc, rfl⟩ := hg.configured i _ _ hd hname.1
  exact ⟨_, (hg.opened _ _).mpr ⟨name, i, c, hname, hd, hc, rfl⟩⟩

/-- The device of a sniffer that is destroyed has none. -/
theorem closed_of_destroyed (hg : Owned config g lib) {i : ℕ} {d : Device} {s : Sniffer τ}
    (hd : g.devices[i]? = some d) (hs : g.captures[i]? = some s) (hgone : s.destroyed = true) :
    lib d.handle = none := by
  rw [Option.eq_none_iff_forall_ne_some]
  intro x hx
  obtain ⟨name, j, c, hj, hd', -, -⟩ := (hg.opened _ _).mp hx
  obtain rfl := hg.index_eq hd hd' rfl
  cases hgone.symm.trans ((hg.destroyed i s hs).mpr ⟨name, hj⟩)

/-- A step of a sniffer keeps the handles, unless it is a handler behind the destruction. -/
theorem reads (hg : Owned config g lib) {i : ℕ} {e : Sniffer.Event} {d : Device}
    {s s' : Sniffer τ} {o : List Sniffer.Output} (hd : g.devices[i]? = some d)
    (hs : g.captures[i]? = some s) (hdestroy : e ≠ .destroy) (hlate : e ≠ .late none)
    (hstep : Sniffer.step parser debug s e = .ok (s', o)) :
    Lib.machine.run lib (Sniffer.calls d.handle e) = .ok (lib, []) ∧
      Owned config { g with captures := g.captures.set i s' } lib := by
  have heffect := Sniffer.step_effect hstep
  have hkept : s'.destroyed = s.destroyed := by
    cases heffect with
    | destroy hlive => exact absurd rfl hdestroy
    | _ => rfl
  constructor
  · cases heffect with
    | ready error now next reading hqueued hlive hcontinues hreading =>
      cases error with
      | none =>
        obtain ⟨x, hx⟩ := hg.open_of_live hd hs hlive
        exact run_calls hx next
      | some error => rfl
    | late error hqueued hgone =>
      cases error with
      | none => exact absurd rfl hlate
      | some error => rfl
    | _ => rfl
  · refine ⟨hg.tracked, hg.length, hg.fresh, hg.distinct, hg.configured, ?_, ?_, hg.opened⟩
    · rw [List.length_set]
      exact hg.captures
    · intro j t ht
      by_cases hij : i = j
      · subst hij
        rw [List.getElem?_set_self (List.getElem?_eq_some_iff.mp hs).1] at ht
        cases ht
        rw [hkept]
        exact hg.destroyed i s hs
      · rw [List.getElem?_set_ne hij] at ht
        exact hg.destroyed j t ht

/-- A step of a sniffer is one of `Sniffer.step`, other than its destruction. -/
theorem step_reads {i : ℕ} {e : Sniffer.Event} {g' : Grabber τ} {out : List Output}
    (hstep : g.step config parser debug (.reads i e) = .ok (g', out)) :
    e ≠ .destroy ∧ ∃ d s s' o, g.devices[i]? = some d ∧ g.captures[i]? = some s ∧
      Sniffer.step parser debug s e = .ok (s', o) ∧
      g' = { g with captures := g.captures.set i s' } ∧
      libCalls out = Sniffer.calls d.handle e := by
  unfold Grabber.step at hstep
  dsimp only at hstep
  split at hstep
  · next d s hd hs =>
    split_ifs at hstep with he
    cases hsniffer : Sniffer.step parser debug s e with
    | error fault => cases fault <;> simp [hsniffer] at hstep
    | ok r =>
      simp only [hsniffer, Except.ok.injEq, Prod.mk.injEq] at hstep
      obtain ⟨rfl, rfl⟩ := hstep
      refine ⟨he, d, s, r.1, r.2, hd, hs, hsniffer, rfl, ?_⟩
      rw [libCalls_append, libCalls_lib, libCalls_sniffer, List.append_nil]
  · cases hstep

/-- An event keeps the handles, unless it tears a descriptor or comes too late. -/
theorem step (hg : Owned config g lib) {e : Event τ} (htears : ¬g.Tears config e)
    (hlate : ¬Late e) {g' : Grabber τ} {out : List Output}
    (hstep : g.step config parser debug e = .ok (g', out)) :
    ∃ lib', Lib.machine.run lib (libCalls out) = .ok (lib', []) ∧ Owned config g' lib' := by
  cases e with
  | sniffer capture a t =>
    obtain ⟨rfl, rfl⟩ : (g.sniffer config capture a t).1 = g' ∧
        (g.sniffer config capture a t).2 = out := by
      simpa [Grabber.step, Prod.ext_iff] using hstep
    by_cases hlive : ∃ i, g.sniffers.Live i (Livecapture.Grabber.cname capture)
    · obtain ⟨i, hi⟩ := hlive
      obtain ⟨hcalls, hg'⟩ := hg.sniffer_live a t hi
      exact ⟨lib, by rw [hcalls]; rfl, hg'⟩
    · exact hg.sniffer_dead (not_exists.mp hlive) htears
  | share i =>
    by_cases hi : g.sniffers.owners i = 0
    · simp [Grabber.step, Sniffers.step, hi] at hstep
    · obtain ⟨rfl, rfl⟩ : { g with sniffers := g.sniffers.own i } = g' ∧ [] = out := by
        simpa [Grabber.step, Sniffers.step, hi] using hstep
      have howned := Nat.pos_of_ne_zero hi
      refine ⟨lib, rfl, hg.of_live le_rfl (hg.tracked.own howned) rfl fun j name => ?_⟩
      exact Sniffers.live_own howned
  | release i =>
    by_cases hi : g.sniffers.owners i = 0
    · simp [Grabber.step, Sniffers.step, hi] at hstep
    · obtain ⟨rfl, rfl⟩ : (g.released i (g.sniffers.disown i)).1 = g' ∧
          (g.released i (g.sniffers.disown i)).2.map .lib = out := by
        simpa [Grabber.step, Sniffers.step, hi] using hstep
      rw [libCalls_lib]
      exact hg.release (Nat.pos_of_ne_zero hi)
  | reads i e =>
    obtain ⟨hdestroy, d, s, s', o, hd, hs, hsniffer, rfl, hcalls⟩ := step_reads hstep
    have hne : e ≠ .late none := by
      rintro rfl
      exact hlate trivial
    rw [hcalls]
    exact ⟨lib, hg.reads hd hs hdestroy hne hsniffer⟩

/-- The library refuses a call of an event that tears a descriptor or comes too late. -/
theorem refused (hg : Owned config g lib) {e : Event τ} (hbad : g.Tears config e ∨ Late e)
    {g' : Grabber τ} {out : List Output}
    (hstep : g.step config parser debug e = .ok (g', out)) :
    ∃ misuse, Lib.machine.run lib (libCalls out) = .error misuse := by
  rcases hbad with htears | hlate
  · cases e with
    | sniffer capture a t =>
      obtain ⟨-, rfl⟩ : (g.sniffer config capture a t).1 = g' ∧
          (g.sniffer config capture a t).2 = out := by
        simpa [Grabber.step, Prod.ext_iff] using hstep
      exact ⟨_, hg.sniffer_torn htears⟩
    | _ => exact htears.elim
  · cases e with
    | reads i e =>
      obtain ⟨-, d, s, s', o, hd, hs, hsniffer, -, hcalls⟩ := step_reads hstep
      obtain rfl : e = .late none := by
        cases e with
        | late error =>
          cases error with
          | none => rfl
          | some error => exact hlate.elim
        | _ => exact hlate.elim
      cases Sniffer.step_effect hsniffer with
      | late error hqueued hgone =>
        rw [hcalls]
        exact ⟨_, run_late (hg.closed_of_destroyed hd hs hgone)⟩
    | _ => exact hlate.elim

end Owned

end Grabber

end NetComponents.Pcap
