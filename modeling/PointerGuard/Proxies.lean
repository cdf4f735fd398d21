import PointerGuard.ShadowStack

namespace PointerGuard

/-- The handles on spans of variadic arguments. They count from one, and a closed handle is given
out again. -/
structure Proxies where
  capacity : Nat
  /-- The span of every handle given out so far; `none` for a closed one. -/
  spans : Array (Option SlotSpan) := #[]
  /-- The places of closed handles, last closed first. -/
  closed : List Nat := []

namespace Proxies

def live (p : Proxies) : Nat := p.spans.size - p.closed.length

/-- The span that an open proxy has left. -/
def span (p : Proxies) (proxy : Word) : Except Violation SlotSpan :=
  if proxy = 0 then .error (.unknownProxy proxy)
  else
    match p.spans[proxy.toNat - 1]? with
    | some (some span) => .ok span
    | _ => .error (.unknownProxy proxy)

def openSpan (p : Proxies) (span : SlotSpan) : Except Violation (Word × Proxies) :=
  match p.closed with
  | i :: closed =>
    .ok (.ofNat (i + 1), { p with spans := p.spans.setIfInBounds i (some span), closed })
  | [] =>
    if p.spans.size < p.capacity then
      .ok (.ofNat (p.spans.size + 1), { p with spans := p.spans.push (some span) })
    else .error (.exhausted .vaArgProxies)

def advance (p : Proxies) (proxy : Word) (words : Nat) : Except Violation Proxies :=
  match p.span proxy with
  | .error v => .error v
  | .ok span =>
    let moved := { span with next := span.next + words }
    .ok { p with spans := p.spans.setIfInBounds (proxy.toNat - 1) (some moved) }

/-- Opens a second proxy over what a proxy has left. -/
def duplicate (p : Proxies) (proxy : Word) : Except Violation (Word × Proxies) :=
  match p.span proxy with
  | .error v => .error v
  | .ok span => p.openSpan span

def close (p : Proxies) (proxy : Word) : Except Violation Proxies :=
  match p.span proxy with
  | .error v => .error v
  | .ok _ =>
    .ok { p with
          spans := p.spans.setIfInBounds (proxy.toNat - 1) none
          closed := (proxy.toNat - 1) :: p.closed }

def spanText (span : SlotSpan) : String :=
  recordText "SlotSpan" [("next", toString span.next), ("end", toString span.stop)]

def describe (p : Proxies) : String :=
  recordText "VaArgProxies"
    [("spans", listText (p.spans.toList.map fun s => optionText (s.map spanText))),
     ("free", listText (p.closed.reverse.map toString)), ("capacity", toString p.capacity)]

end Proxies

end PointerGuard
