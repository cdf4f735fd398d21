import Mathlib.Tactic.Common
import PointerGuard.Guard.Basic

namespace PointerGuard

theorem bind_eq_ok {ε α β : Type} {x : Except ε α} {f : α → Except ε β} {b : β}
    (h : x >>= f = .ok b) : ∃ a, x = .ok a ∧ f a = .ok b := by
  cases x with
  | error e => cases h
  | ok a => exact ⟨a, rfl, h⟩

theorem map_eq_ok {ε α β : Type} {x : Except ε α} {f : α → β} {b : β}
    (h : f <$> x = .ok b) : ∃ a, x = .ok a ∧ f a = b := by
  cases x with
  | error e => cases h
  | ok a => exact ⟨a, rfl, Except.ok.inj h⟩

theorem exists_error_iff {ε α : Type} {x : Except ε α} :
    (∃ e, x = .error e) ↔ ¬∃ a, x = .ok a := by
  cases x <;> simp

variable {host : Host}

theorem Host.reservation_eq_ok {region : Region} {len width : Nat} {base : Word}
    (h : host.reservation region len width = .ok base) :
    len ≠ 0 ∧ len * width < 1 <<< 64 ∧ host.map region (len * width) = some base := by
  unfold Host.reservation at h
  split at h
  next => cases h
  next hz =>
    split at h
    next => cases h
    next hl =>
      split at h
      next hm =>
        cases Except.ok.inj h
        exact ⟨hz, Nat.lt_of_not_le hl, hm⟩
      next => cases h

theorem Table.reserve_eq_ok {α : Type} {region : Region} {len width : Nat} {base : Word}
    {t : Table α} (h : Table.reserve host region len width = .ok (base, t)) :
    t = { len } ∧ len ≠ 0 ∧ len * width < 1 <<< 64 ∧
      host.map region (len * width) = some base := by
  obtain ⟨base', hr, ht⟩ := map_eq_ok h
  cases ht
  exact ⟨rfl, Host.reservation_eq_ok hr⟩

theorem Table.reserve_of_map {α : Type} {region : Region} {len width : Nat} {base : Word}
    (hlen : len ≠ 0) (hsize : len * width < 1 <<< 64)
    (hmap : host.map region (len * width) = some base) :
    Table.reserve host region len width = .ok (base, ({ len } : Table α)) := by
  rw [Table.reserve, Host.reservation, if_neg hlen, if_neg (Nat.not_le.mpr hsize), hmap]
  rfl

theorem FreeMap.create_eq_ok {capacity : Nat} {m : FreeMap}
    (h : FreeMap.create host capacity = .ok m) :
    m = { slots := { len := capacity } } ∧ capacity ≠ 0 ∧ capacity * 8 < 1 <<< 64 := by
  unfold FreeMap.create at h
  split at h
  next hs =>
    obtain ⟨rfl, hz, hroom, _⟩ := Table.reserve_eq_ok hs
    exact ⟨(Except.ok.inj h).symm, hz, hroom⟩
  next => cases h

theorem LockArena.create_eq_ok {capacity : Nat} {a : LockArena}
    (h : LockArena.create host capacity = .ok a) :
    a = { base := a.base, cells := { len := capacity }, links := { len := capacity } } ∧
      host.map .heapLocks (capacity * 8) = some a.base := by
  unfold LockArena.create at h
  split at h
  next hc hl =>
    obtain ⟨rfl, _, _, hbase⟩ := Table.reserve_eq_ok hc
    obtain ⟨rfl, _⟩ := Table.reserve_eq_ok hl
    cases Except.ok.inj h
    exact ⟨rfl, hbase⟩
  next => cases h

theorem LockStack.create_eq_ok {capacity : Nat} {s : LockStack}
    (h : LockStack.create host capacity = .ok s) :
    s = { base := s.base, cells := { len := capacity } } ∧
      host.map .stackLocks (capacity * 8) = some s.base := by
  unfold LockStack.create at h
  split at h
  next hc =>
    obtain ⟨rfl, _, _, hbase⟩ := Table.reserve_eq_ok hc
    cases Except.ok.inj h
    exact ⟨rfl, hbase⟩
  next => cases h

theorem Lifetimes.createGlobal_eq_ok {c : LockCell} (h : createGlobal host = .ok c) :
    c.holds = globalKey ∧ host.map .globalLock 8 = some c.addr := by
  unfold createGlobal at h
  split at h
  next hr =>
    cases Except.ok.inj h
    exact ⟨rfl, (Host.reservation_eq_ok hr).2.2⟩
  next => cases h

theorem Lifetimes.create_eq_ok {lockEntries stackEntries : Nat} {policy : StackLockPolicy}
    {freeMapEntries : Option Nat} {l : Lifetimes}
    (h : Lifetimes.create host lockEntries policy stackEntries freeMapEntries = .ok l) :
    l.nextKey = firstKey ∧ createGlobal host = .ok l.global ∧
      LockArena.create host lockEntries = .ok l.heap ∧ l.stack.policy = policy ∧
      (∀ s, l.stack = .perCall s → LockStack.create host stackEntries = .ok s) ∧
      Option.Rel (fun n m => FreeMap.create host n = .ok m) freeMapEntries l.freeMap := by
  unfold Lifetimes.create at h
  obtain ⟨global, hglobal, h⟩ := bind_eq_ok h
  have htables : ∃ stack map, StackLocks.policy stack = policy ∧
      (∀ s, stack = .perCall s → LockStack.create host stackEntries = .ok s) ∧
      Option.Rel (fun n m => FreeMap.create host n = .ok m) freeMapEntries map ∧
      (LockArena.create host lockEntries >>= fun heap =>
        .ok { global, heap, stack, freeMap := map }) = .ok l := by
    have hshared : ∀ s, StackLocks.shared = .perCall s →
        LockStack.create host stackEntries = .ok s := by simp
    cases policy with
    | shared =>
      cases freeMapEntries with
      | none => exact ⟨.shared, none, rfl, hshared, .none, h⟩
      | some n =>
        obtain ⟨_, hmap, h⟩ := bind_eq_ok (x := some <$> FreeMap.create host n) h
        obtain ⟨m, hm, rfl⟩ := map_eq_ok hmap
        exact ⟨.shared, some m, rfl, hshared, .some hm, h⟩
    | perCall =>
      obtain ⟨_, hstack, h⟩ :=
        bind_eq_ok (x := StackLocks.perCall <$> LockStack.create host stackEntries) h
      obtain ⟨stack, hs, rfl⟩ := map_eq_ok hstack
      have hcalls : ∀ s, StackLocks.perCall stack = .perCall s →
          LockStack.create host stackEntries = .ok s := by
        rintro s ⟨⟩
        exact hs
      cases freeMapEntries with
      | none => exact ⟨.perCall stack, none, rfl, hcalls, .none, h⟩
      | some n =>
        obtain ⟨_, hmap, h⟩ := bind_eq_ok (x := some <$> FreeMap.create host n) h
        obtain ⟨m, hm, rfl⟩ := map_eq_ok hmap
        exact ⟨.perCall stack, some m, rfl, hcalls, .some hm, h⟩
  obtain ⟨stack, map, hpolicy, hs, hm, h⟩ := htables
  obtain ⟨heap, hh, h⟩ := bind_eq_ok h
  cases Except.ok.inj h
  exact ⟨rfl, hglobal, hh, hpolicy, hs, hm⟩

end PointerGuard
