import PointerGuard.Proofs.Guard.Requests
import PointerGuard.Proofs.Machine.Frames
import PointerGuard.Proofs.Machine.Leases
import PointerGuard.Proofs.Machine.Segments

namespace PointerGuard

open Checked

/-- The length of a list of strings, its null entry included, is a word. -/
def Operation.Short : Operation → Prop
  | .registerStrings _ strings => strings.length + 1 < 1 <<< 64
  | _ => True

/-- A step of a guard on the checked machine. -/
abbrev Machine (mode : Mode) : Type → Type := Action Stop (Guard mode)

namespace Guard

variable {mode : Mode} {α β : Type}

def onTrieOrTrap (act : Action Stop (Trie mode) α) : Machine mode α :=
  act.on trie fun g trie => { g with trie }

def onShadowOrTrap (act : Action Stop (ShadowStack mode) α) : Machine mode α :=
  act.on shadow fun g shadow => { g with shadow }

def onProxiesOrTrap (act : Action Stop Proxies α) : Machine mode α :=
  act.on proxies fun g proxies => { g with proxies }

def onLifetimesOrTrap (absent : α) (act : Action Stop Lifetimes α) : Machine mode α := fun g =>
  match g.lifetimes with
  | none => (.ok absent, g)
  | some l =>
    match act l with
    | (r, l) => (r, { g with lifetimes := some l })

def storeMetadataOrTrap (addr : Word) (e : Metadata) : Machine mode Unit := do
  (count .metadataStores).untrapped
  onTrieOrTrap (.update (·.storeOrTrap addr e))

def loadMetadataOrTrap (addr : Word) : Machine mode Metadata := do
  (count .metadataLoads).untrapped
  onTrieOrTrap (.ask (·.loadOrTrap addr))

def copyMetadataOrTrap (dest src len : Word) : Machine mode Nat := do
  let n ← onTrieOrTrap (.trapping (·.copyMetadataOrTrap dest src len))
  if 0 < n then (count .metadataCopies).untrapped
  return n

def storeLaneOrTrap (vector : Word) (index : Nat) (e : Metadata) : Machine mode Unit := do
  let lane ← Action.ask fun _ => of (laneAddress vector index)
  storeMetadataOrTrap lane e

def loadLaneOrTrap (vector : Word) (index : Nat) : Machine mode Metadata := do
  let lane ← Action.ask fun _ => of (laneAddress vector index)
  loadMetadataOrTrap lane

/-- Records bounds for the strings of a vector from lane `index` on, counting the lanes. -/
def storeStringsOrTrap (vector : Word) (index : Nat) : List (Word × Word) → Machine mode Unit
  | [] => pure ()
  | (start, len) :: rest => do
    let bound ← Action.ask fun _ => of (stringBound start len)
    let lock ← Action.read globalLock
    storeLaneOrTrap vector index ⟨start, bound, globalKey, lock⟩
    let next ← Action.ask fun _ => addOrTrap index 1
    storeStringsOrTrap vector next rest

def registerStringsOrTrap (vector : Word) (strings : List (Word × Word)) :
    Machine mode Metadata := do
  storeStringsOrTrap vector 0 strings
  let null ← Action.ask fun _ => addOrTrap strings.length 1
  let bound ← Action.ask fun _ => of (laneAddress vector null)
  let lock ← Action.read globalLock
  return mode.keep ⟨vector, bound, globalKey, lock⟩

def attachProxyOrTrap (addr proxy : Word) : Machine mode Unit := do
  (count .metadataStores).untrapped
  onTrieOrTrap (.update (·.storeOrTrap addr (mode.ofWord proxy)))

def attachedProxyOrTrap (addr : Word) : Machine mode Word := do
  (count .metadataLoads).untrapped
  onTrieOrTrap (.ask fun t => do
    let e ← t.loadOrTrap addr
    .ok (mode.firstWord e))

def pushFrameOrTrap (slots : Nat) : Machine mode Unit := do
  onShadowOrTrap (.update (·.pushOrTrap slots))
  (count .framesPushed).untrapped

def storeSlotOrTrap (slot : Nat) (e : Metadata) : Machine mode Unit :=
  onShadowOrTrap (.update (·.storeSlotOrTrap slot e))

def openProxyOrTrap (slot : Nat) : Machine mode Word := do
  let span ← onShadowOrTrap (.ask (·.slotSpanOrTrap slot))
  onProxiesOrTrap (.issue (·.openSpanOrTrap span))

def nextVariadicOrTrap (proxy : Word) : Machine mode Metadata := do
  let span ← onProxiesOrTrap (.ask fun p => of (p.span proxy))
  let e ← onShadowOrTrap (.ask fun s => do
    let e ← s.readSpanOrTrap span
    e.elim (violation (.proxyPastFrame proxy)) .ok)
  onProxiesOrTrap (.update (·.advanceOrTrap proxy mode.fields))
  return e

def loadProxySlotOrTrap (slot : Nat) : Machine mode Word :=
  onShadowOrTrap (.ask fun s => do
    let e ← s.loadSlotOrTrap slot
    .ok (mode.firstWord e))

def allocateOrTrap (ptr : Word) : Machine mode Lease := do
  onTrieOrTrap (.trapping (·.preallocateOrTrap ptr))
  (count .heapAllocations).untrapped
  onLifetimesOrTrap default (.trapping (·.allocateOrTrap ptr))

def allocateObjectOrTrap (ptr size : Word) : Machine mode Metadata := do
  let lease ← allocateOrTrap ptr
  let bound ← (Action.orFail (.untrackableAddress ptr) (checkedAdd ptr size)).untrapped
  return mode.keep ⟨ptr, bound, lease.key, lease.lock⟩

def deallocateOrTrap (ptr key lock : Word) : Machine mode Unit := do
  onLifetimesOrTrap () (.update (·.deallocateOrTrap ptr key lock))
  (count .heapDeallocations).untrapped

def stackAllocateOrTrap : Machine mode Lease := do
  (count .stackAllocations).untrapped
  onLifetimesOrTrap default (.issue (·.stackAllocateOrTrap))

def stackDeallocateOrTrap (key : Word) : Machine mode Unit := do
  onLifetimesOrTrap () (.update (·.stackDeallocateOrTrap key))
  (count .stackDeallocations).untrapped

def checkTemporalOrTrap (key lock : Word) : Machine mode Unit := do
  (count .checks).untrapped
  Action.ask fun g =>
    if lock = 0 ∧ g.config.leniency.ignoreMissing then .ok ()
    else
      match g.lifetimes with
      | none => .ok ()
      | some l => l.checkOrTrap key lock

def checkDereferenceOrTrap (ptr width : Word) (e : Metadata) : Machine mode Unit := do
  if mode.tracksBounds then (checkSpatial ptr width e.base e.bound).untrapped
  if mode.tracksLifetime then checkTemporalOrTrap e.key e.lock

def checkDereferenceViaOrTrap (witness ptr width : Word) : Machine mode Unit := do
  let e ← loadMetadataOrTrap witness
  checkDereferenceOrTrap ptr width e

def checkCopyOrTrap (dest src len : Word) (destEntry srcEntry : Metadata) : Machine mode Unit := do
  checkDereferenceOrTrap dest len destEntry
  checkDereferenceOrTrap src len srcEntry

/-- What is known about a pointer. A slot that the frame lacks is no violation here. -/
def introspectOrTrap (g : Guard mode) (ptr : Word) (e : Metadata) (slot : Option Nat) :
    Checked Introspection := do
  let lock := (mode.keep e).lock
  let lockHolds ← g.lifetimes.elim (.ok none) (·.cellOrTrap lock)
  let shown ← slot.elim (.ok none) fun i => do
    let e ← caught (g.shadow.loadSlotOrTrap i)
    .ok e.toOption
  let alive : Option Bool :=
    if mode.tracksLifetime then some (lockHolds = some (mode.keep e).key) else none
  .ok { g.introspect ptr e none with lockHolds, alive, slot := shown }

def describeOrTrap (g : Guard mode) : Checked String := do
  let live ← g.proxies.liveOrTrap
  .ok (recordText "Runtime"
    [("mode", quotedText mode.name), ("trie", g.trie.describe), ("shadow", g.shadow.describe),
     ("va_args", toString live), ("temporal", optionText (g.lifetimes.map Lifetimes.describe))] false)

def quietOrTrap (act : Machine mode Unit) : Machine mode Answer := do
  act
  return .done

/-- An operation on the checked machine. The last six make no unchecked access. -/
def performOrTrap : Operation → Machine mode Answer
  | .storeMetadata addr e => quietOrTrap (storeMetadataOrTrap addr e)
  | .loadMetadata addr => return .entry (← loadMetadataOrTrap addr)
  | .copyMetadata dest src len => return .count (← copyMetadataOrTrap dest src len)
  | .preallocate addr => quietOrTrap (onTrieOrTrap (.trapping (·.preallocateOrTrap addr)))
  | .preallocateRange start len =>
    quietOrTrap (onTrieOrTrap (.trapping (·.preallocateRangeOrTrap start len)))
  | .storeLane vector index e => quietOrTrap (storeLaneOrTrap vector index e)
  | .loadLane vector index => return .entry (← loadLaneOrTrap vector index)
  | .registerStrings vector strings => return .entry (← registerStringsOrTrap vector strings)
  | .attachProxy addr proxy => quietOrTrap (attachProxyOrTrap addr proxy)
  | .attachedProxy addr => return .word (← attachedProxyOrTrap addr)
  | .pushFrame slots => quietOrTrap (pushFrameOrTrap slots)
  | .popFrame => quietOrTrap (onShadowOrTrap (.update (·.popOrTrap)))
  | .loadSlot slot => return .entry (← onShadowOrTrap (.ask (·.loadSlotOrTrap slot)))
  | .storeSlot slot e => quietOrTrap (storeSlotOrTrap slot e)
  | .propagateSlot source target =>
    quietOrTrap (onShadowOrTrap (.update (·.propagateOrTrap source target)))
  | .storeReturn e => quietOrTrap (storeSlotOrTrap 0 e)
  | .storeNullReturn => quietOrTrap (storeSlotOrTrap 0 .unknown)
  | .openProxy slot => return .word (← openProxyOrTrap slot)
  | .nextVariadic proxy => return .entry (← nextVariadicOrTrap proxy)
  | .copyProxy proxy => return .word (← onProxiesOrTrap (.issue (·.duplicateOrTrap proxy)))
  | .closeProxy proxy => quietOrTrap (onProxiesOrTrap (.update (·.closeOrTrap proxy)))
  | .storeProxySlot slot proxy => quietOrTrap (storeSlotOrTrap slot (mode.ofWord proxy))
  | .loadProxySlot slot => return .word (← loadProxySlotOrTrap slot)
  | .allocate ptr => return .lease (← allocateOrTrap ptr)
  | .allocateObject ptr size => return .entry (← allocateObjectOrTrap ptr size)
  | .deallocate ptr key lock => quietOrTrap (deallocateOrTrap ptr key lock)
  | .relocate old new key =>
    quietOrTrap (onLifetimesOrTrap () (.trapping (·.relocateOrTrap old new key)))
  | .stackAllocate => return .lease (← stackAllocateOrTrap)
  | .stackDeallocate key => quietOrTrap (stackDeallocateOrTrap key)
  | .checkTemporal key lock => quietOrTrap (checkTemporalOrTrap key lock)
  | .checkDereference ptr width e => quietOrTrap (checkDereferenceOrTrap ptr width e)
  | .checkDereferenceVia witness ptr width =>
    quietOrTrap (checkDereferenceViaOrTrap witness ptr width)
  | .checkCopy dest src len destEntry srcEntry =>
    quietOrTrap (checkCopyOrTrap dest src len destEntry srcEntry)
  | .checkFill dest len e => quietOrTrap (checkDereferenceOrTrap dest len e)
  | .introspect ptr e slot => .ask fun g => do
    let i ← g.introspectOrTrap ptr e slot
    .ok (.introspection i)
  | .isInstalled addr => .ask fun g => do
    let b ← g.trie.isInstalledOrTrap addr
    .ok (.flag b)
  | .describe => .ask fun g => do
    let text ← g.describeOrTrap
    .ok (.text text)
  | .checkSpatial ptr width base bound => quietOrTrap (checkSpatial ptr width base bound).untrapped
  | .checkCall ptr e => quietOrTrap (checkCall ptr e).untrapped
  | .globalLock => (perform .globalLock).untrapped
  | .wideMetadata => (perform .wideMetadata).untrapped
  | .stackLockPolicy => (perform .stackLockPolicy).untrapped
  | .snapshot => (perform .snapshot).untrapped

/-- Tables, frames, proxies and lifetimes are well formed. -/
structure WellFormed (g : Guard mode) : Prop where
  trie : g.trie.WellFormed
  shadow : g.shadow.Framed
  proxies : g.proxies.Sound
  lifetimes : ∀ l, g.lifetimes = some l → l.WellFormed

/-- Where the operation takes a key, there is one. -/
def Spare (g : Guard mode) (op : Operation) : Prop :=
  ∀ l, g.lifetimes = some l → ∀ r ∈ g.requests op, l.Spare r

variable {g : Guard mode}

theorem agrees_count (h : g.WellFormed) (c : Counter) :
    Agrees WellFormed g (count c).untrapped (count c) :=
  .untrapped _ ⟨h.trie, h.shadow, h.proxies, h.lifetimes⟩

theorem agrees_onTrie (h : g.WellFormed) {m : Action Stop (Trie mode) α}
    {act : Action Violation (Trie mode) α} (ha : Agrees Trie.WellFormed g.trie m act) :
    Agrees WellFormed g (onTrieOrTrap m) (onTrie act) :=
  ha.on fun _ ht => ⟨ht, h.shadow, h.proxies, h.lifetimes⟩

theorem agrees_onShadow (h : g.WellFormed) {m : Action Stop (ShadowStack mode) α}
    {act : Action Violation (ShadowStack mode) α} (ha : Agrees ShadowStack.Framed g.shadow m act) :
    Agrees WellFormed g (onShadowOrTrap m) (onShadow act) :=
  ha.on fun _ hs => ⟨h.trie, hs, h.proxies, h.lifetimes⟩

theorem agrees_onProxies (h : g.WellFormed) {m : Action Stop Proxies α}
    {act : Action Violation Proxies α} (ha : Agrees Proxies.Sound g.proxies m act) :
    Agrees WellFormed g (onProxiesOrTrap m) (onProxies act) :=
  ha.on fun _ hp => ⟨h.trie, h.shadow, hp, h.lifetimes⟩

theorem agrees_onLifetimes (h : g.WellFormed) (absent : α) {m : Action Stop Lifetimes α}
    {act : Action Violation Lifetimes α}
    (ha : ∀ l, g.lifetimes = some l → Agrees Lifetimes.WellFormed l m act) :
    Agrees WellFormed g (onLifetimesOrTrap absent m) (onLifetimes absent act) := by
  cases hl : g.lifetimes with
  | none =>
    constructor
    · simp only [Action.run, onLifetimesOrTrap, onLifetimes, hl]
      rfl
    · simp only [Action.run, onLifetimes, hl]
      exact h
  | some l =>
    obtain ⟨hrun, hkept⟩ := ha l hl
    constructor
    · simp only [Action.run, onLifetimesOrTrap, onLifetimes, hl] at hrun ⊢
      rw [hrun]
    · rw [run_onLifetimes hl]
      exact ⟨h.trie, h.shadow, h.proxies, fun _ hm => Option.some.inj hm ▸ hkept⟩

theorem agrees_storeMetadata (h : g.WellFormed) (addr : Word) (e : Metadata) :
    Agrees WellFormed g (storeMetadataOrTrap addr e) (storeMetadata addr e) :=
  (agrees_count h _).bind fun _ _ _ h => agrees_onTrie h <|
    .update h.trie (h.trie.storeOrTrap_eq addr e) fun _ ht => h.trie.store ht

theorem agrees_loadMetadata (h : g.WellFormed) (addr : Word) :
    Agrees WellFormed g (loadMetadataOrTrap addr) (loadMetadata addr) :=
  (agrees_count h _).bind fun _ _ _ h =>
    agrees_onTrie h (.read h.trie (h.trie.loadOrTrap_eq addr))

theorem agrees_copyMetadata (h : g.WellFormed) (dest src len : Word) :
    Agrees WellFormed g (copyMetadataOrTrap dest src len) (copyMetadata dest src len) := by
  refine .bind (agrees_onTrie h <| .trapping (h.trie.copyMetadataOrTrap_eq dest src len)
    (h.trie.copyMetadata dest src len)) fun n _ _ h => ?_
  by_cases hn : 0 < n
  · rw [if_pos hn, if_pos hn]
    exact (agrees_count h _).bind fun _ _ _ h => .pure h n
  · rw [if_neg hn, if_neg hn]
    exact .pure h n

theorem agrees_preallocate (h : g.WellFormed) (addr : Word) :
    Agrees WellFormed g (onTrieOrTrap (.trapping (·.preallocateOrTrap addr))) (preallocate addr) :=
  agrees_onTrie h <|
    .trapping (h.trie.preallocateOrTrap_eq addr) (h.trie.preallocate addr)

theorem agrees_preallocateRange (h : g.WellFormed) (start len : Word) :
    Agrees WellFormed g (onTrieOrTrap (.trapping (·.preallocateRangeOrTrap start len)))
      (preallocateRange start len) :=
  agrees_onTrie h <|
    .trapping (h.trie.preallocateRangeOrTrap_eq start len) (h.trie.preallocateRange start len)

theorem agrees_storeLane (h : g.WellFormed) (vector : Word) (index : Nat) (e : Metadata) :
    Agrees WellFormed g (storeLaneOrTrap vector index e) (storeLane vector index e) :=
  (Agrees.ask h rfl).bind fun lane _ _ h => agrees_storeMetadata h lane e

theorem agrees_loadLane (h : g.WellFormed) (vector : Word) (index : Nat) :
    Agrees WellFormed g (loadLaneOrTrap vector index) (loadLane vector index) :=
  (Agrees.ask h rfl).bind fun lane _ _ h => agrees_loadMetadata h lane

theorem agrees_storeStrings (h : g.WellFormed) (vector : Word) {index : Nat}
    {strings : List (Word × Word)} (hl : index + strings.length < 1 <<< 64) :
    Agrees WellFormed g (storeStringsOrTrap vector index strings)
      (storeStrings vector index strings) := by
  induction strings generalizing g index with
  | nil => exact .pure h ()
  | cons string strings ih =>
    rw [List.length_cons] at hl
    refine (Agrees.ask h rfl).bind fun bound _ _ h => (Agrees.read h rfl).bind fun lock _ _ h =>
      (agrees_storeLane h vector index _).bind fun _ g' _ h => ?_
    rw [addOrTrap_eq (by omega)]
    exact ih h (by omega)

theorem agrees_registerStrings (h : g.WellFormed) (vector : Word) {strings : List (Word × Word)}
    (hl : strings.length + 1 < 1 <<< 64) :
    Agrees WellFormed g (registerStringsOrTrap vector strings) (registerStrings vector strings) := by
  refine (agrees_storeStrings h vector (by omega)).bind fun _ _ _ h => ?_
  rw [addOrTrap_eq hl]
  exact (Agrees.ask h rfl).bind fun _ _ _ h => (Agrees.read h rfl).bind fun _ _ _ h => .pure h _

theorem agrees_attachProxy (h : g.WellFormed) (addr proxy : Word) :
    Agrees WellFormed g (attachProxyOrTrap addr proxy) (attachProxy addr proxy) :=
  (agrees_count h _).bind fun _ _ _ h => agrees_onTrie h <|
    .update h.trie (h.trie.storeOrTrap_eq addr _) fun _ ht => h.trie.store ht

theorem agrees_attachedProxy (h : g.WellFormed) (addr : Word) :
    Agrees WellFormed g (attachedProxyOrTrap addr) (attachedProxy addr) := by
  refine (agrees_count h _).bind fun _ _ _ h => agrees_onTrie h (.read h.trie ?_)
  rw [h.trie.loadOrTrap_eq, ok_bind]

theorem agrees_pushFrame (h : g.WellFormed) (slots : Nat) :
    Agrees WellFormed g (pushFrameOrTrap slots) (pushFrame slots) :=
  .bind (agrees_onShadow h <|
    .update h.shadow (h.shadow.pushOrTrap_eq slots) fun _ hs => h.shadow.push hs)
    fun _ _ _ h => agrees_count h _

theorem agrees_popFrame (h : g.WellFormed) :
    Agrees WellFormed g (onShadowOrTrap (.update (·.popOrTrap))) popFrame :=
  agrees_onShadow h (.update h.shadow h.shadow.popOrTrap_eq fun _ hs => h.shadow.pop hs)

theorem agrees_loadSlot (h : g.WellFormed) (slot : Nat) :
    Agrees WellFormed g (onShadowOrTrap (.ask (·.loadSlotOrTrap slot))) (loadSlot slot) :=
  agrees_onShadow h (.ask h.shadow (h.shadow.loadSlotOrTrap_eq slot))

theorem agrees_storeSlot (h : g.WellFormed) (slot : Nat) (e : Metadata) :
    Agrees WellFormed g (storeSlotOrTrap slot e) (storeSlot slot e) :=
  agrees_onShadow h <|
    .update h.shadow (h.shadow.storeSlotOrTrap_eq slot e) fun _ hs => h.shadow.storeSlot hs

theorem agrees_propagateSlot (h : g.WellFormed) (source target : Nat) :
    Agrees WellFormed g (onShadowOrTrap (.update (·.propagateOrTrap source target)))
      (propagateSlot source target) :=
  agrees_onShadow h <|
    .update h.shadow (h.shadow.propagateOrTrap_eq source target) fun _ hs => h.shadow.propagate hs

theorem agrees_openProxy (h : g.WellFormed) (slot : Nat) :
    Agrees WellFormed g (openProxyOrTrap slot) (openProxy slot) := by
  refine .bind (agrees_onShadow h (.ask h.shadow (h.shadow.slotSpanOrTrap_eq slot)))
    fun span _ _ h => agrees_onProxies h (.issue h.proxies (h.proxies.openSpanOrTrap_eq span) ?_ ?_)
  · intro proxy p ho
    exact ⟨by simp only [Action.run, ho], (h.proxies.openSpan ho).1⟩
  · intro v hv
    simp only [Action.run, hv]

/-- A proxy is advanced only past an entry that it has shown, so its place does not wrap. -/
theorem agrees_nextVariadic (h : g.WellFormed) (proxy : Word) :
    Agrees WellFormed g (nextVariadicOrTrap proxy) (nextVariadic proxy) := by
  have hframed := h.shadow
  refine .bind (agrees_onProxies h (.ask h.proxies rfl)) fun span _ hrun h => ?_
  obtain ⟨hs, rfl⟩ := Prod.mk.inj hrun
  refine .bind (agrees_onShadow h (.ask h.shadow ?_)) fun e _ hrun h => ?_
  · rw [h.shadow.readSpanOrTrap_eq, ok_bind]
    cases g.shadow.readSpan span <;> rfl
  · obtain ⟨he, rfl⟩ := Prod.mk.inj hrun
    obtain ⟨_, _, hroom⟩ := hframed.bounds
    have hend : span.next + mode.fields ≤ g.shadow.words.len := by
      cases hc : g.shadow.readSpan span with
      | none => simp [hc] at he
      | some e' => exact hframed.next_lt_of_readSpan hc
    refine .bind (agrees_onProxies h (.update h.proxies ?_ ?_)) fun _ _ _ h => .pure h e
    · refine Proxies.advanceOrTrap_eq fun span' hs' => ?_
      cases Except.ok.inj (hs.symm.trans hs')
      omega
    · intro p ha
      obtain ⟨_, _, hp, _⟩ := h.proxies.advance ha
      exact hp

theorem agrees_copyProxy (h : g.WellFormed) (proxy : Word) :
    Agrees WellFormed g (onProxiesOrTrap (.issue (·.duplicateOrTrap proxy))) (copyProxy proxy) := by
  refine agrees_onProxies h (.issue h.proxies (h.proxies.duplicateOrTrap_eq proxy) ?_ ?_)
  · intro copy p hd
    obtain ⟨_, _, hp, _⟩ := h.proxies.duplicate hd
    exact ⟨by simp only [Action.run, hd], hp⟩
  · intro v hv
    simp only [Action.run, hv]

theorem agrees_closeProxy (h : g.WellFormed) (proxy : Word) :
    Agrees WellFormed g (onProxiesOrTrap (.update (·.closeOrTrap proxy))) (closeProxy proxy) :=
  agrees_onProxies h <|
    .update h.proxies (g.proxies.closeOrTrap_eq proxy) fun _ hc => (h.proxies.close hc).1

theorem agrees_loadProxySlot (h : g.WellFormed) (slot : Nat) :
    Agrees WellFormed g (loadProxySlotOrTrap slot) (loadProxySlot slot) := by
  refine agrees_onShadow h (.ask h.shadow ?_)
  rw [h.shadow.loadSlotOrTrap_eq]
  cases g.shadow.loadSlot slot <;> rfl

/-- An allocation makes its request only after the tables around the object are installed. -/
theorem spare_allocate {ptr : Word} (hs : g.Spare (.allocate ptr))
    (ht : (g.trie.preallocate ptr).1 = .ok ()) {l : Lifetimes} (hl : g.lifetimes = some l) :
    l.Spare (.allocate ptr) := by
  refine hs l hl _ ?_
  rw [requests_allocate, ht]
  exact List.mem_singleton_self _

theorem agrees_allocate (h : g.WellFormed) {ptr : Word} (hs : g.Spare (.allocate ptr)) :
    Agrees WellFormed g (allocateOrTrap ptr) (allocate ptr) := by
  refine (agrees_preallocate h ptr).bind fun _ g₁ hrun h₁ => ?_
  obtain ⟨ht, rfl⟩ := Prod.mk.inj hrun
  refine (agrees_count h₁ _).bind fun _ g₂ hrun h₂ => ?_
  obtain ⟨_, rfl⟩ := Prod.mk.inj hrun
  refine agrees_onLifetimes h₂ _ fun l hl => ?_
  have hw := h₂.lifetimes l hl
  exact .trapping (hw.allocateOrTrap_eq (spare_allocate hs ht hl)) (hw.allocate ptr)

theorem agrees_allocateObject (h : g.WellFormed) {ptr : Word} (size : Word)
    (hs : g.Spare (.allocate ptr)) :
    Agrees WellFormed g (allocateObjectOrTrap ptr size) (allocateObject ptr size) := by
  refine (agrees_allocate h hs).bind fun lease _ _ h => ?_
  refine .bind (.untrapped _ ?_) fun _ _ _ h => .pure h _
  cases checkedAdd ptr size <;> exact h

theorem agrees_deallocate (h : g.WellFormed) (ptr key lock : Word) :
    Agrees WellFormed g (deallocateOrTrap ptr key lock) (deallocate ptr key lock) := by
  refine .bind (agrees_onLifetimes h _ fun l hl => ?_) fun _ _ _ h => agrees_count h _
  have hw := h.lifetimes l hl
  exact .update hw (hw.deallocateOrTrap_eq ptr key lock) fun _ hd => hw.deallocate hd

theorem agrees_relocate (h : g.WellFormed) (old new key : Word) :
    Agrees WellFormed g (onLifetimesOrTrap () (.trapping (·.relocateOrTrap old new key)))
      (relocate old new key) := by
  refine agrees_onLifetimes h _ fun l hl => ?_
  have hw := h.lifetimes l hl
  exact .trapping (hw.relocateOrTrap_eq old new key) (hw.relocate old new key)

theorem agrees_stackAllocate (h : g.WellFormed) (hs : g.Spare .stackAllocate) :
    Agrees WellFormed g stackAllocateOrTrap stackAllocate := by
  refine (agrees_count h _).bind fun _ g₁ hrun h₁ => ?_
  obtain ⟨_, rfl⟩ := Prod.mk.inj hrun
  refine agrees_onLifetimes h₁ _ fun l hl => ?_
  have hw := h₁.lifetimes l hl
  have hspare := hs l hl _ (List.mem_singleton_self _)
  refine .issue hw (hw.stackAllocateOrTrap_eq hspare) ?_ ?_
  · intro lease l' ha
    exact ⟨by simp only [Action.run, ha], hw.stackAllocate ha⟩
  · intro v hv
    simp only [Action.run, hv]

theorem agrees_stackDeallocate (h : g.WellFormed) (key : Word) :
    Agrees WellFormed g (stackDeallocateOrTrap key) (stackDeallocate key) := by
  refine .bind (agrees_onLifetimes h _ fun l hl => ?_) fun _ _ _ h => agrees_count h _
  have hw := h.lifetimes l hl
  exact .update hw (hw.stackDeallocateOrTrap_eq key) fun _ hd => hw.stackDeallocate hd

theorem agrees_checkSpatial (h : g.WellFormed) (ptr width base bound : Word) :
    Agrees WellFormed g (checkSpatial ptr width base bound).untrapped
      (checkSpatial ptr width base bound) :=
  .untrapped _ (agrees_count h .checks).kept

theorem agrees_checkTemporal (h : g.WellFormed) (key lock : Word) :
    Agrees WellFormed g (checkTemporalOrTrap key lock) (checkTemporal key lock) := by
  refine (agrees_count h _).bind fun _ g' _ h => .ask h ?_
  split
  next => rfl
  next =>
    cases hl : g'.lifetimes with
    | none => rfl
    | some l => exact (h.lifetimes l hl).checkOrTrap_eq key lock

theorem agrees_checkDereference (h : g.WellFormed) (ptr width : Word) (e : Metadata) :
    Agrees WellFormed g (checkDereferenceOrTrap ptr width e) (checkDereference ptr width e) := by
  have hspatial := agrees_checkSpatial h ptr width e.base e.bound
  cases mode with
  | spatial => exact hspatial.bind fun _ _ _ h => .pure h ()
  | temporal => exact agrees_checkTemporal h e.key e.lock
  | combined => exact hspatial.bind fun _ _ _ h => agrees_checkTemporal h e.key e.lock

theorem agrees_checkDereferenceVia (h : g.WellFormed) (witness ptr width : Word) :
    Agrees WellFormed g (checkDereferenceViaOrTrap witness ptr width)
      (checkDereferenceVia witness ptr width) :=
  (agrees_loadMetadata h witness).bind fun e _ _ h => agrees_checkDereference h ptr width e

theorem agrees_checkCopy (h : g.WellFormed) (dest src len : Word) (destEntry srcEntry : Metadata) :
    Agrees WellFormed g (checkCopyOrTrap dest src len destEntry srcEntry)
      (checkCopy dest src len destEntry srcEntry) :=
  (agrees_checkDereference h dest len destEntry).bind fun _ _ _ h =>
    agrees_checkDereference h src len srcEntry

theorem agrees_checkCall (h : g.WellFormed) (ptr : Word) (e : Metadata) :
    Agrees WellFormed g (checkCall ptr e).untrapped (checkCall ptr e) := by
  have hcounted := (agrees_count h .checks).kept
  cases mode with
  | spatial => exact .untrapped _ hcounted
  | temporal => exact .untrapped _ hcounted
  | combined => exact .untrapped _ hcounted

theorem introspectOrTrap_eq (h : g.WellFormed) (ptr : Word) (e : Metadata) (slot : Option Nat) :
    g.introspectOrTrap ptr e slot = .ok (g.introspect ptr e slot) := by
  have hcell : g.lifetimes.elim (.ok none) (·.cellOrTrap (mode.keep e).lock)
      = .ok (g.lifetimes.bind (·.cell? (mode.keep e).lock)) := by
    cases hl : g.lifetimes with
    | none => rfl
    | some l => exact (h.lifetimes l hl).cellOrTrap_eq _
  have hshown : (slot.elim (.ok none) fun i => do
        let e ← caught (g.shadow.loadSlotOrTrap i)
        .ok e.toOption)
      = (.ok (slot.bind fun i => (g.shadow.loadSlot i).toOption) : Checked (Option Metadata)) := by
    cases slot with
    | none => rfl
    | some i =>
      rw [Option.elim_some, h.shadow.loadSlotOrTrap_eq, caught_of, ok_bind, Option.bind_some]
  rw [introspectOrTrap, hcell, ok_bind, hshown, ok_bind, introspect]
  rfl

theorem describeOrTrap_eq (h : g.WellFormed) : g.describeOrTrap = .ok g.describe := by
  rw [describeOrTrap, h.proxies.liveOrTrap_eq, ok_bind, describe]

theorem agrees_quiet {m : Machine mode Unit} {act : Guarded mode Unit}
    (h : Agrees WellFormed g m act) : Agrees WellFormed g (quietOrTrap m) (quiet act) :=
  h.bind fun _ _ _ h => .pure h _

/-- An operation on a guard that is well formed does not trap, however it is called. -/
theorem agrees_perform (h : g.WellFormed) {op : Operation} (hs : g.Spare op) (hl : op.Short) :
    Agrees WellFormed g (performOrTrap op) (perform op) := by
  cases op with
  | storeMetadata addr e => exact agrees_quiet (agrees_storeMetadata h addr e)
  | loadMetadata addr => exact (agrees_loadMetadata h addr).bind fun _ _ _ h => .pure h _
  | copyMetadata dest src len =>
    exact (agrees_copyMetadata h dest src len).bind fun _ _ _ h => .pure h _
  | preallocate addr => exact agrees_quiet (agrees_preallocate h addr)
  | preallocateRange start len => exact agrees_quiet (agrees_preallocateRange h start len)
  | storeLane vector index e => exact agrees_quiet (agrees_storeLane h vector index e)
  | loadLane vector index => exact (agrees_loadLane h vector index).bind fun _ _ _ h => .pure h _
  | registerStrings vector strings =>
    exact (agrees_registerStrings h vector hl).bind fun _ _ _ h => .pure h _
  | attachProxy addr proxy => exact agrees_quiet (agrees_attachProxy h addr proxy)
  | attachedProxy addr => exact (agrees_attachedProxy h addr).bind fun _ _ _ h => .pure h _
  | pushFrame slots => exact agrees_quiet (agrees_pushFrame h slots)
  | popFrame => exact agrees_quiet (agrees_popFrame h)
  | loadSlot slot => exact (agrees_loadSlot h slot).bind fun _ _ _ h => .pure h _
  | storeSlot slot e => exact agrees_quiet (agrees_storeSlot h slot e)
  | propagateSlot source target => exact agrees_quiet (agrees_propagateSlot h source target)
  | storeReturn e => exact agrees_quiet (agrees_storeSlot h 0 e)
  | storeNullReturn => exact agrees_quiet (agrees_storeSlot h 0 .unknown)
  | openProxy slot => exact (agrees_openProxy h slot).bind fun _ _ _ h => .pure h _
  | nextVariadic proxy => exact (agrees_nextVariadic h proxy).bind fun _ _ _ h => .pure h _
  | copyProxy proxy => exact (agrees_copyProxy h proxy).bind fun _ _ _ h => .pure h _
  | closeProxy proxy => exact agrees_quiet (agrees_closeProxy h proxy)
  | storeProxySlot slot proxy => exact agrees_quiet (agrees_storeSlot h slot (mode.ofWord proxy))
  | loadProxySlot slot => exact (agrees_loadProxySlot h slot).bind fun _ _ _ h => .pure h _
  | allocate ptr => exact (agrees_allocate h hs).bind fun _ _ _ h => .pure h _
  | allocateObject ptr size => exact (agrees_allocateObject h size hs).bind fun _ _ _ h => .pure h _
  | deallocate ptr key lock => exact agrees_quiet (agrees_deallocate h ptr key lock)
  | relocate old new key => exact agrees_quiet (agrees_relocate h old new key)
  | stackAllocate => exact (agrees_stackAllocate h hs).bind fun _ _ _ h => .pure h _
  | stackDeallocate key => exact agrees_quiet (agrees_stackDeallocate h key)
  | checkSpatial ptr width base bound =>
    exact agrees_quiet (agrees_checkSpatial h ptr width base bound)
  | checkTemporal key lock => exact agrees_quiet (agrees_checkTemporal h key lock)
  | checkDereference ptr width e => exact agrees_quiet (agrees_checkDereference h ptr width e)
  | checkDereferenceVia witness ptr width =>
    exact agrees_quiet (agrees_checkDereferenceVia h witness ptr width)
  | checkCall ptr e => exact agrees_quiet (agrees_checkCall h ptr e)
  | checkCopy dest src len destEntry srcEntry =>
    exact agrees_quiet (agrees_checkCopy h dest src len destEntry srcEntry)
  | checkFill dest len e => exact agrees_quiet (agrees_checkDereference h dest len e)
  | introspect ptr e slot => exact .read h (by rw [introspectOrTrap_eq h, ok_bind])
  | globalLock => exact .untrapped _ h
  | wideMetadata => exact .untrapped _ h
  | stackLockPolicy => exact .untrapped _ h
  | isInstalled addr => exact .read h (by rw [Trie.isInstalledOrTrap_eq, ok_bind])
  | snapshot => exact .untrapped _ h
  | describe => exact .read h (by rw [describeOrTrap_eq h, ok_bind])

end Guard

end PointerGuard
