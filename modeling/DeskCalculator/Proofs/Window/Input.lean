import DeskCalculator.Window

/-! # However the keys come

The state at the end of a script follows from the keys of its frames alone. So it makes no difference how
events are spread over frames, where typed texts are cut, and what is done that gives no key; and since
keyboard and pad have the same keys, either of them can do alone whatever both do together.
-/
namespace DeskCalculator

namespace Event

inductive Silent : Event → Prop
  | released (key : Stroke) : Silent (.stroke key false)
  | other (down : Bool) : Silent (.stroke .other down)
  | pasted (text : String) : Silent (.pasted text)
  | typed {text : String} (h : ∀ c ∈ text.toList, Key.ofChar? c = none) : Silent (.typed text)

theorem keys_eq_nil_iff {e : Event} : e.keys = [] ↔ e.Silent := by
  constructor
  · intro h
    cases e with
    | typed text => exact .typed (List.filterMap_eq_nil_iff.mp h)
    | pasted text => exact .pasted text
    | stroke key down =>
      cases down with
      | false => exact .released key
      | true =>
        cases key with
        | other => exact .other true
        | _ => cases h
  · intro h
    cases h with
    | released key => cases key <;> rfl
    | other down => rfl
    | pasted text => rfl
    | typed h => exact List.filterMap_eq_nil_iff.mpr h

/-- The lists have the same events, up to where typed texts are cut and to silent events. -/
inductive Recut : List Event → List Event → Prop
  | refl (es : List Event) : Recut es es
  | symm {es es' : List Event} (h : Recut es es') : Recut es' es
  | trans {es es' es'' : List Event} (h : Recut es es') (h' : Recut es' es'') : Recut es es''
  | append {es es' fs fs' : List Event} (he : Recut es es') (hf : Recut fs fs') :
      Recut (es ++ fs) (es' ++ fs')
  | cut (a b : String) : Recut [.typed (a ++ b)] [.typed a, .typed b]
  | silent {e : Event} (h : e.Silent) : Recut [e] []

theorem Recut.flatMap_keys {es es' : List Event} (h : Recut es es') :
    es.flatMap keys = es'.flatMap keys := by
  induction h with
  | refl => rfl
  | symm _ ih => exact ih.symm
  | trans _ _ ih ih' => exact ih.trans ih'
  | append _ _ ihe ihf => rw [List.flatMap_append, List.flatMap_append, ihe, ihf]
  | cut a b => simp [keys, String.toList_append, List.filterMap_append]
  | silent h => rw [List.flatMap_singleton, keys_eq_nil_iff.mpr h, List.flatMap_nil]

end Event

namespace Key

def event : Key → Event
  | equals => .stroke .enter true
  | delete => .stroke .backspace true
  | clear => .stroke .escape true
  | key => .typed (String.ofList (key.label.toList.take 1))

/-- Every key of the pad can be typed. -/
theorem keys_event : ∀ key ∈ pad.flatten, key.event.keys = [key] := by decide +kernel

theorem mem_pad_of_ofChar? {c : Char} {key : Key} (h : ofChar? c = some key) :
    key ∈ pad.flatten := by
  unfold ofChar? at h
  split at h
  case isTrue hc =>
    have hdigits : ∀ d < 10, digit d ∈ pad.flatten := by decide
    obtain rfl := Option.some.inj h
    have hle : c.toNat ≤ 57 := (Char.isDigit_iff_toNat.mp hc).2
    have hlt : c.toNat - 48 < 10 := by omega
    exact hdigits _ hlt
  case isFalse =>
    split at h
    all_goals cases h
    all_goals decide

/-- Everything that can be typed is on the pad. -/
theorem mem_pad_of_mem_keys {e : Event} {key : Key} (h : key ∈ e.keys) : key ∈ pad.flatten := by
  cases e with
  | typed text =>
    obtain ⟨c, -, hc⟩ := List.mem_filterMap.mp h
    exact mem_pad_of_ofChar? hc
  | pasted text => cases h
  | stroke stroke down =>
    cases down with
    | false => cases stroke <;> cases h
    | true =>
      cases stroke with
      | other => cases h
      | _ =>
        obtain rfl := List.mem_singleton.mp h
        decide

end Key

namespace Window
variable (settings : Settings) (s : State)

/-- The state at the end follows from the keys. -/
theorem getLastD_states (frames : List Frame) : (states settings s frames).getLastD s =
    s.pressAll settings (frames.flatMap Frame.keys) := by
  induction frames generalizing s with
  | nil => rfl
  | cons frame frames ih =>
    rw [states, List.getLastD_cons, ih, afterFrame, List.flatMap_cons, State.pressAll_append]

theorem flatMap_keys_events (ess : List (List Event)) :
    (ess.map Frame.events).flatMap Frame.keys = ess.flatten.flatMap Event.keys := by
  induction ess with
  | nil => rfl
  | cons es ess ih =>
    rw [List.map_cons, List.flatMap_cons, ih, List.flatten_cons, List.flatMap_append]
    rfl

def trace (keys : List Key) : List State := keys.scanl (State.press settings) s

theorem trace_eq_cons (keys : List Key) :
    trace settings s keys = s :: (trace settings s keys).tail := by
  cases keys <;> simp [trace]

theorem trace_append (a b : List Key) : trace settings s (a ++ b) =
    trace settings s a ++ (trace settings (s.pressAll settings a) b).tail :=
  List.scanl_append

theorem pressAll_mem_trace (keys : List Key) :
    s.pressAll settings keys ∈ trace settings s keys :=
  List.mem_of_getLast? List.getLast?_scanl

/-- The states at the ends of frames are among those met key by key. -/
theorem states_subset_trace (frames : List Frame) :
    states settings s frames ⊆ trace settings s (frames.flatMap Frame.keys) := by
  induction frames generalizing s with
  | nil => exact List.nil_subset _
  | cons frame frames ih =>
    have hframe : afterFrame settings s frame ∈ trace settings s frame.keys :=
      pressAll_mem_trace settings s frame.keys
    have hrest := ih (afterFrame settings s frame)
    rw [trace_eq_cons] at hrest
    rw [states, List.flatMap_cons, trace_append]
    refine List.cons_subset.mpr ⟨List.mem_append_left _ hframe, ?_⟩
    intro t ht
    rcases List.mem_cons.mp (hrest ht) with rfl | ht
    · exact List.mem_append_left _ hframe
    · exact List.mem_append_right _ ht

/-- Frames of one key each meet exactly these states. -/
theorem cons_states_eq_trace {f : Key → Frame} {keys : List Key}
    (h : ∀ key ∈ keys, (f key).keys = [key]) :
    s :: states settings s (keys.map f) = trace settings s keys := by
  induction keys generalizing s with
  | nil => rfl
  | cons key keys ih =>
    obtain ⟨hkey, hkeys⟩ := List.forall_mem_cons.mp h
    have hframe : afterFrame settings s (f key) = s.press settings key := by
      rw [afterFrame, hkey]
      rfl
    rw [List.map_cons, states, hframe, ih _ hkeys, trace, trace, List.scanl_cons]

/-- What is clicked in a script with clicks on the pad only, and what is typed in it, is on the pad. -/
theorem mem_pad_of_mem_flatMap_keys {frames : List Frame}
    (h : ∀ key, .click key ∈ frames → key ∈ Key.pad.flatten) {key : Key}
    (hkey : key ∈ frames.flatMap Frame.keys) : key ∈ Key.pad.flatten := by
  obtain ⟨frame, hframe, hkey⟩ := List.mem_flatMap.mp hkey
  cases frame with
  | events es =>
    obtain ⟨e, -, hkey⟩ := List.mem_flatMap.mp hkey
    exact Key.mem_pad_of_mem_keys hkey
  | click clicked =>
    obtain rfl := List.mem_singleton.mp hkey
    exact h _ hframe
  | secondaryClick clicked => cases hkey

/-- Events leave the state to which their keys lead one after the other, however they are spread over
frames. Between any other frames, events can be cut differently and silent ones left out without effect.
And the states that a script with clicks on the pad meets key by key are those after each frame of a
script of events alone and of a script of clicks on the pad alone. -/
theorem states_of_keys (settings : Settings) (s : State) :
    (∀ ess : List (List Event), (states settings s (ess.map .events)).getLastD s =
      (ess.flatten.flatMap Event.keys).foldl (State.press settings) s) ∧
    (∀ (before after : List Frame) (ess ess' : List (List Event)),
      Event.Recut ess.flatten ess'.flatten →
        (states settings s (before ++ ess.map .events ++ after)).getLastD s =
          (states settings s (before ++ ess'.map .events ++ after)).getLastD s) ∧
    ∀ frames, (∀ key, .click key ∈ frames → key ∈ Key.pad.flatten) →
      let met := trace settings s (frames.flatMap Frame.keys)
      states settings s frames ⊆ met ∧
        (∃ es : List Event, s :: states settings s (es.map fun e => .events [e]) = met) ∧
        ∃ clicked : List Key, (∀ key ∈ clicked, key ∈ Key.pad.flatten) ∧
          s :: states settings s (clicked.map .click) = met := by
  refine ⟨?_, ?_, ?_⟩
  · intro ess
    rw [getLastD_states, flatMap_keys_events]
    rfl
  · intro before after ess ess' h
    have hkeys : (ess.map Frame.events).flatMap Frame.keys =
        (ess'.map Frame.events).flatMap Frame.keys := by
      rw [flatMap_keys_events, flatMap_keys_events, h.flatMap_keys]
    rw [getLastD_states, getLastD_states]
    simp only [List.flatMap_append, hkeys]
  · intro frames hpad met
    have hmem : ∀ key ∈ frames.flatMap Frame.keys, key ∈ Key.pad.flatten :=
      fun key => mem_pad_of_mem_flatMap_keys hpad
    have htyped : ∀ key ∈ frames.flatMap Frame.keys, (Frame.events [key.event]).keys = [key] := by
      intro key hkey
      rw [Frame.keys, List.flatMap_singleton]
      exact Key.keys_event key (hmem key hkey)
    refine ⟨states_subset_trace settings s frames, ⟨(frames.flatMap Frame.keys).map Key.event, ?_⟩,
      frames.flatMap Frame.keys, hmem, ?_⟩
    · rw [List.map_map]
      exact cons_states_eq_trace settings s htyped
    · exact cons_states_eq_trace settings s fun _ _ => rfl

theorem states_of_keys_mixed :
    let frames : List Frame := [.events [.typed "2", .stroke .enter false],
      .click (.operator .sin), .events [.typed "x0)", .pasted "1", .stroke .enter true]]
    let ess : List (List Event) := [[.typed "1 +2"], [.stroke .enter true]]
    let ess' : List (List Event) :=
      [[.typed "1"], [.stroke .other true, .typed "+2", .stroke .enter true]]
    Event.Recut ess.flatten ess'.flatten ∧ (∀ key, .click key ∈ frames → key ∈ Key.pad.flatten) ∧
      (states {} {} (ess.map .events)).getLastD {} = (states {} {} (ess'.map .events)).getLastD {} ∧
      ∃ clicked : List Key, {} :: states {} {} (clicked.map .click) =
        trace {} {} [.digit 2, .operator .sin, .digit 0, .closing, .equals] := by
  intro frames ess ess'
  have hrecut : Event.Recut ess.flatten ess'.flatten := by
    have hsilent : Event.Silent (.typed " ") := Event.keys_eq_nil_iff.mp rfl
    have hblank : Event.Recut [.typed "1 "] [.typed "1"] :=
      (Event.Recut.cut "1" " ").trans (.append (.refl [.typed "1"]) (.silent hsilent))
    have hother : Event.Recut [] [.stroke .other true] := .symm (.silent (.other true))
    have htyped : Event.Recut [.typed "1 +2"] [.typed "1", .stroke .other true, .typed "+2"] :=
      (Event.Recut.cut "1 " "+2").trans (hblank.append (hother.append (.refl [.typed "+2"])))
    exact htyped.append (.refl [.stroke .enter true])
  have hpad : ∀ key, .click key ∈ frames → key ∈ Key.pad.flatten := by
    intro key hkey
    simp only [frames, List.mem_cons, Frame.click.injEq, reduceCtorEq, List.not_mem_nil, or_false,
      false_or] at hkey
    rw [hkey]
    decide
  obtain ⟨-, hcut, hscript⟩ := states_of_keys {} {}
  obtain ⟨-, -, clicked, -, hclicked⟩ := hscript frames hpad
  exact ⟨hrecut, hpad, hcut [] [] ess ess' hrecut, clicked, hclicked⟩

end Window
end DeskCalculator
