import PointerGuard.Guard.Basic

namespace PointerGuard.Guard

variable {mode : Mode}

def pushFrame (slots : Nat) : Guarded mode Unit := do
  onShadow (.update (·.push slots))
  count .framesPushed

def popFrame : Guarded mode Unit := onShadow (.update (·.pop))

def loadSlot (slot : Nat) : Guarded mode Metadata := onShadow (.ask (·.loadSlot slot))

def storeSlot (slot : Nat) (e : Metadata) : Guarded mode Unit :=
  onShadow (.update (·.storeSlot slot e))

def propagateSlot (source target : Nat) : Guarded mode Unit :=
  onShadow (.update (·.propagate source target))

def storeReturn (e : Metadata) : Guarded mode Unit := storeSlot 0 e

def storeNullReturn : Guarded mode Unit := storeSlot 0 .unknown

/-- Opens a proxy over the slots of the current frame from `slot` on. -/
def openProxy (slot : Nat) : Guarded mode Word := do
  let span ← onShadow (.ask (·.slotSpan slot))
  onProxies fun p =>
    match p.openSpan span with
    | .ok (proxy, p) => (.ok proxy, p)
    | .error v => (.error v, p)

def nextVariadic (proxy : Word) : Guarded mode Metadata := do
  let span ← onProxies (.ask (·.span proxy))
  let e ← onShadow (.ask fun s => (s.readSpan span).elim (.error (.proxyPastFrame proxy)) .ok)
  onProxies (.update (·.advance proxy mode.fields))
  return e

/-- Opens a second proxy at the place of a proxy. -/
def copyProxy (proxy : Word) : Guarded mode Word :=
  onProxies fun p =>
    match p.duplicate proxy with
    | .ok (copy, p) => (.ok copy, p)
    | .error v => (.error v, p)

def closeProxy (proxy : Word) : Guarded mode Unit := onProxies (.update (·.close proxy))

def storeProxySlot (slot : Nat) (proxy : Word) : Guarded mode Unit :=
  onShadow (.update (·.storeSlot slot (mode.ofWord proxy)))

def loadProxySlot (slot : Nat) : Guarded mode Word :=
  onShadow (.ask fun s => (s.loadSlot slot).map mode.firstWord)

end PointerGuard.Guard
