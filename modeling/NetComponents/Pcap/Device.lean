import NetComponents.Pcap.Capture

/-!
# Handles of libpcap

A `Device` opens a handle of libpcap, sets its filter, and closes the handle in its destructor. A
`Capture` lends the descriptor of a live handle to a stream. The model lists the calls that a
construction makes, and those of a sniffer that reads, for any answers of the library. The library
itself is a machine that refuses
a call on a handle that is not open, a program that is not freed once, and a descriptor that is
closed by two owners.
-/

namespace NetComponents.Pcap

open Library

/-- The calls of libpcap, with the handle that an open returns, and of the stream that has the
descriptor of a handle. -/
inductive LibCall where
  | pcap_lookupnet (interface : String)
  | pcap_open_live (interface : String) (h : Option ℕ)
  | pcap_open_offline (file : String) (h : Option ℕ)
  | pcap_compile (h : ℕ) (filter : String) (netmask : ℕ) (compiled : Bool)
  | pcap_setfilter (h : ℕ) (installed : Bool)
  | pcap_freecode (h : ℕ)
  | pcap_geterr (h : ℕ)
  | pcap_setnonblock (h : ℕ)
  | pcap_get_selectable_fd (h : ℕ)
  | pcap_datalink (h : ℕ)
  | pcap_next_ex (h : ℕ)
  | pcap_close (h : ℕ)
  | assign (h : ℕ)
  | release (h : ℕ)
  | close (h : ℕ)
  deriving DecidableEq, Repr

/-- What a construction gets for an answer: a call fails with a text, or it does not fail.
`pcap_get_selectable_fd` has no text. `stream` is thrown by the constructor of the stream, `rest`
by what the constructor of `Capture` does behind it, and `sniffer` by that of `Sniffer` behind the
capture. -/
structure Answers where
  netmask : ℕ := 0
  lookupnet : Option String := none
  opened : Option String := none
  compile : Option String := none
  setfilter : Option String := none
  setnonblock : Option String := none
  selectable : Bool := true
  stream : Option String := none
  rest : Option String := none
  sniffer : Option String := none
  deriving DecidableEq, Repr

/-- `offline_` and `handle_` -/
structure Device where
  offline : Bool
  handle : ℕ
  deriving DecidableEq, Repr

namespace Device

def isfile (interface : String) : Bool := interface.toList.any (· ∈ ['.', '/', '\\'])

def raise (func text : String) : String := func ++ "() failed with error '" ++ text ++ "'"

variable (a : Answers) (h : ℕ)

/-- The end of `open` and of `load`, which differ in the netmask. -/
def program (filter : String) (netmask : ℕ) : List LibCall × Option String :=
  match a.compile with
  | some text =>
    ([.pcap_compile h filter netmask false, .pcap_geterr h, .pcap_close h],
      some (raise "pcap_compile" text))
  | none =>
    match a.setfilter with
    | some text =>
      ([.pcap_compile h filter netmask true, .pcap_setfilter h false, .pcap_geterr h,
        .pcap_freecode h, .pcap_close h], some (raise "pcap_setfilter" text))
    | none =>
      ([.pcap_compile h filter netmask true, .pcap_setfilter h true, .pcap_freecode h], none)

def «open» (interface filter : String) : List LibCall × Option String :=
  match a.lookupnet with
  | some text => ([.pcap_lookupnet interface], some (raise "pcap_lookupnet" text))
  | none =>
    match a.opened with
    | some text =>
      ([.pcap_lookupnet interface, .pcap_open_live interface none],
        some (raise "pcap_open_live" text))
    | none =>
      let (calls, e) := program a h filter a.netmask
      (.pcap_lookupnet interface :: .pcap_open_live interface (some h) :: calls, e)

def load (file filter : String) : List LibCall × Option String :=
  match a.opened with
  | some text => ([.pcap_open_offline file none], some (raise "pcap_open_offline" text))
  | none =>
    let (calls, e) := program a h filter 0
    (.pcap_open_offline file (some h) :: calls, e)

/-- The constructor. -/
def new (interface filter : String) : List LibCall × Option String :=
  if isfile interface then load a h interface filter else «open» a h interface filter

/-- The destructor. -/
def delete (d : Device) : List LibCall := [.pcap_close d.handle]

def setnonblock : List LibCall × Option String :=
  match a.setnonblock with
  | some text => ([.pcap_setnonblock h], some (raise "pcap_setnonblock" text))
  | none =>
    if a.selectable then ([.pcap_setnonblock h, .pcap_get_selectable_fd h], none)
    else
      -- the buffer of the error is still empty
      ([.pcap_setnonblock h, .pcap_get_selectable_fd h], some (raise "pcap_get_selectable_fd" ""))

end Device

namespace Capture

variable (a : Answers) (h : ℕ)

/-- The stream takes the descriptor of a live handle. A file has no stream. -/
def «open» (offline : Bool) : List LibCall × Option String :=
  if offline then ([], none)
  else
    let (calls, e) := Device.setnonblock a h
    match e with
    | some what => (calls, some what)
    | none =>
      match a.stream with
      | some what => (calls, some what)
      | none => (calls ++ [.assign h], none)

/-- The constructor. Behind a throw, what has been constructed is destroyed, a stream that has not
released its descriptor included. -/
def new (interface filter : String) : List LibCall × Option String :=
  let (calls, e) := Device.new a h interface filter
  match e with
  | some what => (calls, some what)
  | none =>
    let d : Device := ⟨Device.isfile interface, h⟩
    let (calls', e) := «open» a h d.offline
    match e with
    | some what => (calls ++ calls' ++ d.delete, some what)
    | none =>
      match a.rest with
      | some what =>
        (calls ++ calls' ++ [.pcap_datalink h] ++ (if d.offline then [] else [.close h]) ++
          d.delete, some what)
      | none => (calls ++ calls' ++ [.pcap_datalink h], none)

/-- The destructor. -/
def delete (d : Device) : List LibCall :=
  (if d.offline then [] else [.release d.handle]) ++ d.delete

/-- The calls of the loop of `process`, whose callback takes each frame and no error. -/
def calls : List NextEx → List LibCall
  | [] | .eof _ :: _ | .nothing :: _ => [.pcap_next_ex h]
  | .packet _ _ :: next => .pcap_next_ex h :: calls next
  -- the text of the error is logged
  | .failed _ :: _ => [.pcap_next_ex h, .pcap_geterr h]

end Capture

namespace Sniffer

/-- The constructor, which creates the parser behind the capture and then reads. -/
def new (a : Answers) (h : ℕ) (interface filter : String) : List LibCall × Option String :=
  let (calls, e) := Capture.new a h interface filter
  match e with
  | some what => (calls, some what)
  | none =>
    match a.sniffer with
    | some what => (calls ++ Capture.delete ⟨Device.isfile interface, h⟩, some what)
    | none => (calls, none)

/-- The handlers of a sniffer. A handler that was queued when the sniffer was destroyed calls the
library if it has no error; what follows that call is not modelled. -/
def calls (h : ℕ) : Event → List LibCall
  | .ready none _ next => Capture.calls h next
  | .late none => [.pcap_next_ex h]
  | _ => []

end Sniffer

/-- What the library knows of an open handle: a compiled program that is not freed, the filter,
and whether a stream owns the descriptor too. -/
structure Handle where
  source : String
  offline : Bool
  program : Option String := none
  filter : Option String := none
  stream : Bool := false
  deriving DecidableEq, Repr

/-- The open handles. -/
abbrev Lib := ℕ → Option Handle

/-- A handle that is not open, or open already; a program too many, too few or forgotten; a
descriptor with no owner or with two. -/
inductive Misuse where
  | handle
  | program
  | descriptor
  deriving DecidableEq, Repr

namespace Lib

def closed : Lib := fun _ => none

/-- A call on an open handle. -/
def on (lib : Lib) (h : ℕ) (f : Handle → Except Misuse (Option Handle)) :
    Except Misuse (Lib × List Empty) :=
  match lib h with
  | none => .error .handle
  | some x => (f x).map fun y => (Function.update lib h y, [])

/-- An open that succeeds. -/
def opens (lib : Lib) (h : ℕ) (x : Handle) : Except Misuse (Lib × List Empty) :=
  match lib h with
  | none => .ok (Function.update lib h (some x), [])
  | some _ => .error .handle

def step (lib : Lib) : LibCall → Except Misuse (Lib × List Empty)
  | .pcap_lookupnet _ | .pcap_open_live _ none | .pcap_open_offline _ none => .ok (lib, [])
  | .pcap_open_live interface (some h) => lib.opens h { source := interface, offline := false }
  | .pcap_open_offline file (some h) => lib.opens h { source := file, offline := true }
  | .pcap_compile h filter _ compiled => lib.on h fun x =>
    if x.program.isSome then .error .program
    else .ok (some { x with program := if compiled then some filter else none })
  | .pcap_setfilter h installed => lib.on h fun x =>
    match x.program with
    | none => .error .program
    | some filter => .ok (some (if installed then { x with filter := some filter } else x))
  | .pcap_freecode h => lib.on h fun x =>
    if x.program.isSome then .ok (some { x with program := none }) else .error .program
  | .pcap_geterr h | .pcap_setnonblock h | .pcap_get_selectable_fd h | .pcap_datalink h
  | .pcap_next_ex h => lib.on h fun x => .ok (some x)
  | .pcap_close h => lib.on h fun x =>
    if x.stream then .error .descriptor
    else if x.program.isSome then .error .program
    else .ok none
  | .assign h => lib.on h fun x =>
    if x.stream then .error .descriptor else .ok (some { x with stream := true })
  | .release h => lib.on h fun x =>
    if x.stream then .ok (some { x with stream := false }) else .error .descriptor
  -- the library closes the descriptor of an open handle itself
  | .close h => lib.on h fun _ => .error .descriptor

def machine : Machine Misuse Lib LibCall Empty := ⟨step⟩

variable {lib : Lib} {h : ℕ}

@[simp] theorem on_update (x : Handle) (f : Handle → Except Misuse (Option Handle)) :
    on (Function.update lib h (some x)) h f =
      (f x).map fun y => (Function.update lib h y, []) := by
  simp [on]

theorem opens_closed (hclosed : lib h = none) (x : Handle) :
    lib.opens h x = .ok (Function.update lib h (some x), []) := by
  simp [opens, hclosed]

theorem update_closed (hclosed : lib h = none) : Function.update lib h none = lib := by
  rw [← hclosed, Function.update_eq_self]

end Lib

/-- The handle of a device that has been constructed. -/
def Handle.filtered (source filter : String) (offline : Bool) : Handle :=
  { source, offline, filter := some filter }

/-- The handle of a capture that has been constructed. -/
def Handle.ready (interface filter : String) : Handle :=
  { Handle.filtered interface filter (Device.isfile interface) with
    stream := !Device.isfile interface }

/-- The library accepts the calls of a construction. If it throws, the handles are what they were,
and else the handle `h` is open. -/
def Builds (lib : Lib) (h : ℕ) (x : Handle) (r : List LibCall × Option String) : Prop :=
  Lib.machine.run lib r.1 = .ok (if r.2.isSome then lib else Function.update lib h (some x), [])

/-- A live capture whose constructor throws behind its stream. -/
structure Answers.Tears (a : Answers) (h : ℕ) (interface filter : String) : Prop where
  live : Device.isfile interface = false
  device : (Device.new a h interface filter).2 = none
  stream : (Capture.open a h false).2 = none
  rest : a.rest ≠ none

section Constructions

variable {lib : Lib} {h : ℕ} (a : Answers) (interface filter : String)

/-- `open` and `load` set the filter of the handle, or close it and throw. -/
theorem builds_program (hclosed : lib h = none) (offline : Bool) (netmask : ℕ) {call : LibCall}
    (hcall : Lib.step lib call = lib.opens h { source := interface, offline }) :
    Builds lib h (.filtered interface filter offline)
      (call :: (Device.program a h filter netmask).1, (Device.program a h filter netmask).2) := by
  have hopen : Lib.machine.step lib call =
      .ok (Function.update lib h (some { source := interface, offline }), []) := by
    rw [← Lib.opens_closed hclosed]
    exact hcall
  refine Lib.machine.run_cons (o := []) hopen ?_
  unfold Device.program
  cases hcompile : a.compile with
  | some text =>
    simp [Machine.run, Lib.machine, Lib.step, Except.map, Lib.update_closed hclosed]
  | none =>
    cases hsetfilter : a.setfilter <;>
      simp [Machine.run, Lib.machine, Lib.step, Except.map, Lib.update_closed hclosed,
        Handle.filtered]

theorem builds_load (hclosed : lib h = none) :
    Builds lib h (.filtered interface filter true) (Device.load a h interface filter) := by
  unfold Device.load
  cases hopened : a.opened with
  | some text => rfl
  | none => exact builds_program a interface filter hclosed true 0 rfl

theorem builds_open (hclosed : lib h = none) :
    Builds lib h (.filtered interface filter false) (Device.open a h interface filter) := by
  unfold Device.open
  cases hlookup : a.lookupnet with
  | some text => rfl
  | none =>
    cases hopened : a.opened with
    | some text => rfl
    | none =>
      exact Lib.machine.run_cons (o := []) rfl
        (builds_program a interface filter hclosed false a.netmask rfl)

theorem builds_device (hclosed : lib h = none) :
    Builds lib h (.filtered interface filter (Device.isfile interface))
      (Device.new a h interface filter) := by
  unfold Device.new
  cases hoffline : Device.isfile interface with
  | true => exact builds_load a interface filter hclosed
  | false => exact builds_open a interface filter hclosed

/-- The device of the base is destroyed. -/
theorem run_delete (hclosed : lib h = none) (offline : Bool) :
    Lib.machine.run (Function.update lib h (some (.filtered interface filter offline)))
      (Device.delete ⟨offline, h⟩) = .ok (lib, []) := by
  simp [Device.delete, Machine.run, Lib.machine, Lib.step, Except.map, Handle.filtered,
    Lib.update_closed hclosed]

/-- The stream is made, or the handle is left as it was. -/
theorem run_open_stream {x : Handle} (hlib : lib h = some x) (hx : x.stream = false) :
    Lib.machine.run lib (Capture.open a h false).1 =
      .ok (if (Capture.open a h false).2.isSome then lib
        else Function.update lib h (some { x with stream := true }), []) := by
  have hkeeps : Function.update lib h (some x) = lib := by rw [← hlib, Function.update_eq_self]
  unfold Capture.open Device.setnonblock
  cases hnonblock : a.setnonblock with
  | some text => simp [Machine.run, Lib.machine, Lib.step, Lib.on, hlib, Except.map, hkeeps]
  | none =>
    cases hselectable : a.selectable with
    | false => simp [Machine.run, Lib.machine, Lib.step, Lib.on, hlib, Except.map, hkeeps]
    | true =>
      cases hstream : a.stream <;>
        simp [Machine.run, Lib.machine, Lib.step, Lib.on, hlib, Except.map, hkeeps, hx]

theorem run_datalink {x : Handle} (hlib : lib h = some x) :
    Lib.machine.run lib [.pcap_datalink h] = .ok (lib, []) := by
  have hkeeps : Function.update lib h (some x) = lib := by rw [← hlib, Function.update_eq_self]
  simp [Machine.run, Lib.machine, Lib.step, Lib.on, hlib, Except.map, hkeeps]

/-- A live capture, up to where it may still throw. -/
theorem run_live (hclosed : lib h = none) (hlive : Device.isfile interface = false)
    {calls calls' : List LibCall} (hnew : Device.new a h interface filter = (calls, none))
    (hopen : Capture.open a h false = (calls', none)) :
    Lib.machine.run lib (calls ++ calls' ++ [.pcap_datalink h]) =
      .ok (Function.update lib h (some (.ready interface filter)), []) := by
  have hdevice := builds_device a interface filter hclosed
  rw [hnew, hlive] at hdevice
  have hstream := run_open_stream (h := h) a (Function.update_self h
    (some (Handle.filtered interface filter false)) lib) rfl
  rw [hopen, Function.update_idem] at hstream
  have hready : Lib.machine.run lib (calls ++ calls') =
      .ok (Function.update lib h (some (.ready interface filter)), []) := by
    rw [Handle.ready, hlive]
    exact Lib.machine.run_append hdevice hstream
  exact Lib.machine.run_append hready (run_datalink (Function.update_self ..))

/-- A constructor of `Capture` undoes what it has done when it throws, unless it tears the
descriptor from the library. -/
theorem builds_capture (hclosed : lib h = none) (htears : ¬a.Tears h interface filter) :
    Builds lib h (.ready interface filter) (Capture.new a h interface filter) := by
  have hdevice := builds_device a interface filter hclosed
  unfold Capture.new
  rcases hnew : Device.new a h interface filter with ⟨calls, e⟩
  rw [hnew] at hdevice
  cases e with
  | some what => exact hdevice
  | none =>
    cases hfile : Device.isfile interface with
    | true =>
      rw [hfile] at hdevice
      have hdata : Lib.machine.run lib (calls ++ [.pcap_datalink h]) =
          .ok (Function.update lib h (some (.filtered interface filter true)), []) :=
        Lib.machine.run_append hdevice (run_datalink (Function.update_self ..))
      cases hrest : a.rest with
      | some what =>
        have hall := Lib.machine.run_append hdata (run_delete interface filter hclosed true)
        simpa [Builds, Capture.open] using hall
      | none => simpa [Builds, Capture.open, Handle.ready, Handle.filtered, hfile] using hdata
    | false =>
      rcases hopen : Capture.open a h false with ⟨calls', e⟩
      cases e with
      | some what =>
        rw [hfile] at hdevice
        have hstream := run_open_stream (h := h) a (Function.update_self h
          (some (Handle.filtered interface filter false)) lib) rfl
        rw [hopen] at hstream
        have hall := Lib.machine.run_append (Lib.machine.run_append hdevice hstream)
          (run_delete interface filter hclosed false)
        simpa [Builds, hopen] using hall
      | none =>
        have hrest : a.rest = none := by
          by_contra hrest
          exact htears ⟨hfile, by rw [hnew], by rw [hopen], hrest⟩
        have hready := run_live a interface filter hclosed hfile hnew hopen
        simpa [Builds, hopen, hrest] using hready

/-- A stream that is destroyed with the descriptor of an open handle: the library refuses. -/
theorem run_torn (hclosed : lib h = none) (htears : a.Tears h interface filter) :
    Lib.machine.run lib (Capture.new a h interface filter).1 = .error .descriptor := by
  unfold Capture.new
  rcases hnew : Device.new a h interface filter with ⟨calls, e⟩
  rcases hopen : Capture.open a h false with ⟨calls', e'⟩
  obtain rfl : e = none := by simpa [hnew] using htears.device
  obtain rfl : e' = none := by simpa [hopen] using htears.stream
  obtain ⟨what, hrest⟩ := Option.ne_none_iff_exists'.mp htears.rest
  have hready := run_live a interface filter hclosed htears.live hnew hopen
  have hclose : Lib.machine.run (Function.update lib h (some (.ready interface filter)))
      (.close h :: Device.delete ⟨false, h⟩) = .error .descriptor := by
    simp [Machine.run, Lib.machine, Lib.step, Except.map]
  simpa [htears.live, hopen, hrest] using Lib.machine.run_append_error hready hclose

/-- The destructor of a capture closes its handle. -/
theorem run_capture_delete (hopen : lib h = some (.ready interface filter)) :
    Lib.machine.run lib (Capture.delete ⟨Device.isfile interface, h⟩) =
      .ok (Function.update lib h none, []) := by
  cases hfile : Device.isfile interface <;>
    simp [Capture.delete, Device.delete, Machine.run, Lib.machine, Lib.step, Lib.on, hopen, hfile,
      Handle.ready, Handle.filtered, Except.map]

/-- The constructor of a sniffer destroys the capture when it throws behind it. -/
theorem builds_sniffer (hclosed : lib h = none) (htears : ¬a.Tears h interface filter) :
    Builds lib h (.ready interface filter) (Sniffer.new a h interface filter) := by
  have hcapture := builds_capture a interface filter hclosed htears
  unfold Sniffer.new
  rcases hnew : Capture.new a h interface filter with ⟨calls, e⟩
  rw [hnew] at hcapture
  cases e with
  | some what => exact hcapture
  | none =>
    cases hsniffer : a.sniffer with
    | none => exact hcapture
    | some what =>
      have hdelete := run_capture_delete (h := h) interface filter
        (Function.update_self h (some (.ready interface filter)) lib)
      rw [Function.update_idem, Lib.update_closed hclosed] at hdelete
      exact Lib.machine.run_append hcapture hdelete

theorem run_torn_sniffer (hclosed : lib h = none) (htears : a.Tears h interface filter) :
    Lib.machine.run lib (Sniffer.new a h interface filter).1 = .error .descriptor := by
  have htorn := run_torn a interface filter hclosed htears
  unfold Sniffer.new
  rcases hnew : Capture.new a h interface filter with ⟨calls, e⟩
  rw [hnew] at htorn
  cases e with
  | some what => exact htorn
  | none =>
    cases hsniffer : a.sniffer with
    | none => exact htorn
    | some what => exact Lib.machine.run_error_append htorn _

/-- A sniffer that reads leaves an open handle as it is. -/
theorem run_calls {x : Handle} (hlib : lib h = some x) (next : List NextEx) :
    Lib.machine.run lib (Capture.calls h next) = .ok (lib, []) := by
  have hkeeps : Function.update lib h (some x) = lib := by rw [← hlib, Function.update_eq_self]
  have hnext : Lib.machine.step lib (.pcap_next_ex h) = .ok (lib, []) := by
    simp [Lib.machine, Lib.step, Lib.on, hlib, Except.map, hkeeps]
  induction next with
  | nil => exact Lib.machine.run_singleton_ok_iff.mpr hnext
  | cons r next ih =>
    cases r with
    | packet data ts => exact Lib.machine.run_cons (o := []) hnext ih
    | failed hdr =>
      have hgeterr : Lib.machine.step lib (.pcap_geterr h) = .ok (lib, []) := by
        simp [Lib.machine, Lib.step, Lib.on, hlib, Except.map, hkeeps]
      exact Lib.machine.run_cons (o := []) hnext (Lib.machine.run_singleton_ok_iff.mpr hgeterr)
    | _ => exact Lib.machine.run_singleton_ok_iff.mpr hnext

end Constructions

/-- A handler of a sniffer that is destroyed calls the library with a handle that is closed. -/
theorem run_late {lib : Lib} {h : ℕ} (hclosed : lib h = none) :
    Lib.machine.run lib (Sniffer.calls h (.late none)) = .error .handle := by
  simp [Sniffer.calls, Machine.run, Lib.machine, Lib.step, Lib.on, hclosed]

end NetComponents.Pcap
