import TreeStream.RenderError

/-!
# Hooks

Components call hooks while they render. Outside a work pass every hook fails; inside one the hooks
that need a client's state fail as unsupported, and the others do what little they can do once.
-/

namespace TreeStream

/-- The hooks that components know. -/
inductive Hook where
  | memo
  | callback
  | deferredValue
  | debugValue
  | transition
  | state
  | reducer
  | ref
  | context
  | effect
  | layoutEffect
  | imperativeHandle
  deriving DecidableEq

namespace Hook

/-- The name of a hook that only a client can serve. -/
def unsupported? : Hook → Option String
  | memo => none
  | callback => none
  | deferredValue => none
  | debugValue => none
  | transition => none
  | state => some "useState"
  | reducer => some "useReducer"
  | ref => some "useRef"
  | context => some "useContext"
  | effect => some "useEffect"
  | layoutEffect => some "useLayoutEffect"
  | imperativeHandle => some "useImperativeHandle"

/-- Whether a hook may be called, given whether a work pass is under way. -/
def permit (inPass : Bool) (h : Hook) : Except RenderError Unit :=
  if inPass then
    match h.unsupported? with
    | some name => .error (.unsupportedHook name)
    | none => .ok ()
  else .error .invalidHookCall

theorem permit_outside (h : Hook) : h.permit false = .error .invalidHookCall := rfl

theorem permit_inside (h : Hook) : h.permit true = .ok () ↔ h.unsupported? = none := by
  cases h <;> simp [permit, unsupported?]

end Hook
end TreeStream
