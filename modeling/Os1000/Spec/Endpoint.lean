import Os1000.Lib.Slots
import Os1000.Net.Host
import Mathlib.Data.Finset.Card

/-!
# An endpoint on the wire

What the network code is for, without frames, buffers or counters: an endpoint knows the
hardware addresses of others by having heard from them, asks for one that it does not know,
answers the last one who asked for its own, and numbers the packets it sends.

It knows as many addresses as it likes up to eight. When it hears from a ninth, it may lose
one of the others, and only then.
-/

namespace Os1000

open Lib

/-- What is sent. -/
inductive Message where
  /-- To everyone: who has this address? -/
  | request (ip : Nat)
  /-- To the one who asked. -/
  | reply (mac : Mac) (ip : Nat)
  /-- A packet with its number. -/
  | packet (mac : Mac) (identification dstIp : Nat) (protocol : UInt8) (payload : List UInt8)
  /-- To everyone, with no protocol. -/
  | raw (payload : List UInt8)

/-- What the endpoint knows. -/
structure Endpoint where
  /-- Who has which address. -/
  bindings : Nat → Option Mac
  /-- Who asked and has no answer. -/
  asked : Option (Mac × Nat)
  /-- How many packets were sent. -/
  packets : Nat
  /-- What the call that is being made returns. -/
  result : Option Int

/-- Where to send a packet. -/
def Endpoint.resolve (e : Endpoint) (ip : Nat) : Option Mac :=
  if ip = ipv4BroadcastAddress then some fun _ => 0xff else e.bindings ip

/-- The first `len` of some bytes. -/
def given (payload : Bytes) (len : Nat) : List UInt8 := (List.range len).map payload

/-- A call: what it returns, what it sends, and what is known then. -/
def Endpoint.call (e : Endpoint) : HostCall → Int × List Message × Endpoint
  | .ipv4Send dstIp protocol payload payloadLen =>
      if payload.isNone ∧ 0 < payloadLen ∨ 1480 < payloadLen then (-1, [], e)
      else
        match e.resolve dstIp with
        | none => (-2, [.request dstIp], e)
        | some mac =>
            (payloadLen,
              [.packet mac ((e.packets + 1) % 2 ^ 16) dstIp protocol
                (given (payload.getD fun _ => 0) payloadLen)],
              { e with packets := e.packets + 1 })
  | .arpRequest targetIp => (28, [.request targetIp], e)
  | .arpPoll =>
      match e.asked with
      | none => (0, [], e)
      | some (mac, ip) => (0, [.reply mac ip], { e with asked := none })
  | .sendPacket payload len =>
      if len < 0 ∨ 1500 < len then (-1, [], e)
      else (len, [.raw (given payload len.toNat)], e)

/-- `mac` is heard from at `ip`. -/
inductive Hears (b : Nat → Option Mac) (ip : Nat) (mac : Mac) : (Nat → Option Mac) → Prop where
  | learn : Hears b ip mac (Function.update b ip (some mac))
  /-- Eight others are known; one of them is lost. -/
  | forget (old : Nat) (known : Finset Nat) : known.card = arpCacheSize →
      (∀ x ∈ known, b x ≠ none) → b ip = none →
      Hears b ip mac (Function.update (Function.update b old none) ip (some mac))

/-- What happens to the endpoint. -/
inductive EndpointLabel where
  /-- It hears from `mac` at `ip`, which may ask for its address. -/
  | hear (ip : Nat) (mac : Mac) (asks : Bool)
  /-- It is sent something else. -/
  | ignore
  | call (c : HostCall) (sent : List Message)
  | ret (ret : Int)

/-- One step of the endpoint. -/
inductive EndpointStep : Endpoint → EndpointLabel → Endpoint → Prop where
  | hear {e : Endpoint} {ip : Nat} {mac : Mac} {asks : Bool} {b : Nat → Option Mac} :
      Hears e.bindings ip mac b → EndpointStep e (.hear ip mac asks)
        { e with bindings := b, asked := if asks then some (mac, ip) else e.asked }
  | ignore {e : Endpoint} : EndpointStep e .ignore e
  | call {e : Endpoint} {c : HostCall} : e.result = none →
      EndpointStep e (.call c (e.call c).2.1) { (e.call c).2.2 with result := some (e.call c).1 }
  | ret {e : Endpoint} {ret : Int} : e.result = some ret →
      EndpointStep e (.ret ret) { e with result := none }

/-- It knows nobody yet. -/
def Endpoint.init : Endpoint := ⟨fun _ => none, none, 0, none⟩

/-- Whom it has heard from, oldest first. -/
def heard (tr : List EndpointLabel) : List (Nat × Mac) :=
  tr.filterMap fun
    | .hear ip mac _ => some (ip, mac)
    | _ => none

/-! ## Among few -/

section

variable {tr : List EndpointLabel} {e : Endpoint}

theorem heard_snoc (tr : List EndpointLabel) (l : EndpointLabel) :
    heard (tr ++ [l]) = heard tr ++ heard [l] := List.filterMap_append

/-- Only what was heard is known. -/
theorem Endpoint.call_bindings (e : Endpoint) (c : HostCall) :
    (e.call c).2.2.bindings = e.bindings := by
  cases c with
  | ipv4Send dstIp protocol payload payloadLen =>
      unfold Endpoint.call
      dsimp only
      split
      · rfl
      · cases e.resolve dstIp with
        | none => rfl
        | some mac => rfl
  | arpRequest targetIp => rfl
  | arpPoll =>
      unfold Endpoint.call
      dsimp only
      cases e.asked with
      | none => rfl
      | some a => rfl
  | sendPacket payload len =>
      unfold Endpoint.call
      dsimp only
      split
      · rfl
      · rfl

/-- **An endpoint that hears from at most eight forgets none of them**: it knows of each
address what it last heard. -/
theorem Endpoint.bindings_latest (hr : Run (· = Endpoint.init) EndpointStep tr e)
    (hfew : ((heard tr).map Prod.fst).toFinset.card ≤ arpCacheSize) (ip : Nat) :
    e.bindings ip = latest (heard tr) ip := by
  induction hr generalizing ip with
  | start h =>
      rw [h]
      rfl
  | @snoc tr e e' l hr hs ih =>
      have hsub : ((heard tr).map Prod.fst).toFinset ⊆ ((heard (tr ++ [l])).map Prod.fst).toFinset := by
        intro x hx
        rw [heard_snoc, List.map_append, List.toFinset_append]
        exact Finset.mem_union_left _ hx
      have ih := ih (Nat.le_trans (Finset.card_le_card hsub) hfew)
      -- only hearing changes what is known, and what was heard
      cases hs with
      | ignore => simpa [heard_snoc, heard] using ih ip
      | ret _ => simpa [heard_snoc, heard] using ih ip
      | call _ =>
          rw [Endpoint.call_bindings]
          simpa [heard_snoc, heard] using ih ip
      | @hear src mac asks b hh =>
          have hsnoc : heard (tr ++ [EndpointLabel.hear src mac asks])
              = heard tr ++ [(src, mac)] := heard_snoc ..
          rw [hsnoc] at hfew ⊢
          cases hh with
          | learn =>
              by_cases h : ip = src
              · rw [h, latest_snoc_self]
                exact Function.update_self ..
              · rw [latest_snoc_other _ h, ← ih ip]
                exact Function.update_of_ne h _ _
          | forget old known hcard hknown hnew =>
              -- the eight and the one heard from now are nine
              exfalso
              have hmem : ∀ x ∈ known, x ∈ ((heard tr).map Prod.fst).toFinset := by
                intro x hx
                obtain ⟨m, hm⟩ := Option.ne_none_iff_exists'.mp (hknown x hx)
                rw [ih x] at hm
                exact List.mem_toFinset.mpr (List.mem_map_of_mem (mem_of_latest hm))
              have hout : src ∉ known := fun hx => hknown src hx hnew
              have hnine : insert src known
                  ⊆ ((heard tr ++ [(src, mac)]).map Prod.fst).toFinset := by
                intro x hx
                rw [List.map_append, List.toFinset_append]
                rcases Finset.mem_insert.mp hx with rfl | hx
                · exact Finset.mem_union_right _ (by simp)
                · exact Finset.mem_union_left _ (hmem x hx)
              have := Finset.card_le_card hnine
              rw [Finset.card_insert_of_notMem hout] at this
              omega

end

end Os1000
