import PicoCppSdk.Foundation.Ledger
import PicoCppSdk.Foundation.Program
import PicoCppSdk.Foundation.Transition

/-!
# Transport — `udp_transport.cpp` and who owns its socket

The four entry points share the descriptor `sock_fd`.  Each is a program over the calls of the
socket library, whose answers are inputs; `socket` does not answer a descriptor that is open, be it
the transport's or another's.  The history records the descriptors that `socket` gave to the
transport and those that the transport has closed.

`udp_transport_close` resets `sock_fd`; the exit of `udp_transport_open` after a failed `bind` does
not, and `udp_transport_open` does not look at the descriptor it overwrites.
-/

namespace PicoCppSdk
namespace Udp

open Atomic Ledger Transition

/-! ## The socket library -/

/-- The fields of a `sockaddr_in` that the transport sets. -/
structure SockAddr where
  sinPort : BitVec 16
  sinAddr : BitVec 32

/-- `ROS_UDP_PORT`, and the address that `inet_aton` reads from `ROS_AGENT_IP`. -/
structure Platform where
  rosUdpPort : BitVec 16
  rosAgentIp : BitVec 32

def INADDR_ANY : BitVec 32 := 0#32

inductive Act where
  | socket
  | bind (fd : Int) (addr : SockAddr)
  | close (fd : Int)
  | sendto (fd : Int) (len : Nat) (dest : SockAddr)
  | setsockopt (fd : Int) (tvSec tvUsec : Int)
  | recv (fd : Int) (len : Nat)

/-- Every call answers an `int`. -/
abbrev Act.Ans (_ : Act) : Type := Int

abbrev Code (α : Type) := Prog Act Act.Ans α

def socket : Code Int := .act .socket .ret

def bind (fd : Int) (addr : SockAddr) : Code Int := .act (.bind fd addr) .ret

def close (fd : Int) : Code Int := .act (.close fd) .ret

def sendto (fd : Int) (len : Nat) (dest : SockAddr) : Code Int := .act (.sendto fd len dest) .ret

def setsockopt (fd tvSec tvUsec : Int) : Code Int := .act (.setsockopt fd tvSec tvUsec) .ret

def recv (fd : Int) (len : Nat) : Code Int := .act (.recv fd len) .ret

/-! ## The entry points -/

/-- The static data of the file. -/
structure Globals where
  sockFd : Int
  agentAddrSender : SockAddr

def udpTransportOpen (p : Platform) (g : Globals) : Code (Bool × Globals) := do
  -- Whatever `sock_fd` was before: an earlier descriptor is not closed.
  let fd ← socket
  let g := { g with sockFd := fd }
  if fd < 0 then
    pure (false, g)
  else do
    let g := { g with agentAddrSender := ⟨p.rosUdpPort, p.rosAgentIp⟩ }
    let bound ← bind fd ⟨p.rosUdpPort, INADDR_ANY⟩
    if bound < 0 then do
      -- The descriptor is closed and stays in `sock_fd`.
      let _ ← close fd
      pure (false, g)
    else
      pure (true, g)

def udpTransportClose (g : Globals) : Code (Bool × Globals) :=
  if 0 ≤ g.sockFd then do
    let _ ← close g.sockFd
    pure (true, { g with sockFd := -1 })
  else
    pure (true, g)

/-- What `udp_transport_write` and `udp_transport_read` return, and what they store in `*err`. -/
structure Reply where
  size : Nat
  err : Option (BitVec 8)

/-- The result of `sendto` or `recv` as the entry points report it. -/
def Reply.ofCount (n : Int) : Reply :=
  if n < 0 then ⟨0, some 1#8⟩ else ⟨n.toNat, some 0#8⟩

def udpTransportWrite (g : Globals) (len : Nat) : Code Reply :=
  if g.sockFd < 0 then
    -- Nothing is stored in `*err`.
    pure ⟨0, none⟩
  else do
    let sent ← sendto g.sockFd len g.agentAddrSender
    pure (.ofCount sent)

/-- `timeout` is in milliseconds; `/` and `%` of the source truncate. -/
def udpTransportRead (g : Globals) (len : Nat) (timeout : Int) : Code Reply :=
  if g.sockFd < 0 then
    pure ⟨0, none⟩
  else do
    let _ ← setsockopt g.sockFd (timeout.tdiv 1000) (timeout.tmod 1000 * 1000)
    let received ← recv g.sockFd len
    pure (.ofCount received)

/-! ## Calls in sequence -/

inductive Call where
  | open
  | close
  | write (len : Nat)
  | read (len : Nat) (timeout : Int)

/-- The answers of the library during a call; those of `close` and `setsockopt` are not used. -/
structure Outcome where
  socket : Int
  bind : Int
  sendto : Int
  recv : Int

inductive Owner where
  | transport
  | other

/-- The open descriptors, and what the transport has obtained and closed. -/
structure Lib where
  owner : Int → Option Owner
  history : List (Entry Int)

/-- `opened` is what the last `udp_transport_open` returned. -/
structure Sys where
  globals : Globals
  opened : Option Bool
  lib : Lib

/-- One call of the library, by the transport. -/
def answer (o : Outcome) : (a : Act) → Lib → a.Ans × Lib
  | .socket, lib =>
      if o.socket < 0 then
        (o.socket, lib)
      else
        (o.socket,
          { owner := Function.update lib.owner o.socket (some .transport)
            history := .acquire o.socket :: lib.history })
  | .bind _ _, lib => (o.bind, lib)
  | .close fd, lib =>
      (0, { owner := Function.update lib.owner fd none, history := .release fd :: lib.history })
  | .sendto _ _ _, lib => (o.sendto, lib)
  | .setsockopt _ _ _, lib => (0, lib)
  | .recv _ _, lib => (o.recv, lib)

variable (p : Platform)

/-- The code of a call, with the state it leaves. -/
def Call.code (s : Sys) : Call → Code Sys
  | .open => do
      let (ok, g) ← udpTransportOpen p s.globals
      pure { s with globals := g, opened := some ok }
  | .close => do
      let (_, g) ← udpTransportClose s.globals
      pure { s with globals := g }
  | .write len => do
      let _ ← udpTransportWrite s.globals len
      pure s
  | .read len timeout => do
      let _ ← udpTransportRead s.globals len timeout
      pure s

/-- The socket calls that a call makes. -/
def Call.socketCalls (s : Sys) (c : Call) (o : Outcome) : List Act :=
  (c.code p s).trace (answer o) s.lib

/-- A call of the transport, or another user of the library opening or closing a socket. -/
inductive Label where
  | call (c : Call) (o : Outcome)
  | otherSocket (fd : Int)
  | otherClose (fd : Int)

def Sys.call (s : Sys) (c : Call) (o : Outcome) : Sys :=
  let r := (c.code p s).run (answer o) s.lib
  { r.1 with lib := r.2 }

/-- The library answers `socket` with an error or with a descriptor that is not open. -/
def Lib.Fresh (lib : Lib) (fd : Int) : Prop :=
  fd < 0 ∨ (lib.owner fd).isNone

instance (lib : Lib) (fd : Int) : Decidable (lib.Fresh fd) :=
  inferInstanceAs (Decidable (_ ∨ _))

def step : Label → Sys → Option Sys
  | .call c o, s => if s.lib.Fresh o.socket then some (s.call p c o) else none
  | .otherSocket fd, s =>
      if s.lib.Fresh fd then
        some { s with lib.owner := Function.update s.lib.owner fd (some .other) }
      else
        none
  | .otherClose fd, s =>
      match s.lib.owner fd with
      | some .other => some { s with lib.owner := Function.update s.lib.owner fd none }
      | _ => none

/-- Before the first call; others may have sockets. -/
def boot (others : Int → Bool) : Sys where
  globals := ⟨-1, ⟨0#16, 0#32⟩⟩
  opened := none
  lib := { owner := fun fd => if others fd then some .other else none, history := [] }

/-! ## The property -/

/-- The descriptor that the transport has, by `sock_fd`. -/
def Sys.current (s : Sys) : Option Int :=
  if s.globals.sockFd < 0 then none else some s.globals.sockFd

/-- Every descriptor that the transport obtained has been closed once or is `sock_fd`, none has been
closed more often; and after an open that returned false the other entry points leave the library
alone. -/
structure Owns (s : Sys) : Prop where
  settled : Settles s.lib.history s.current
  silent : s.opened = some false → ∀ c o, c ≠ Call.open → c.socketCalls p s o = []

/-- In particular `sock_fd` is negative or a descriptor that has not been closed. -/
theorem Owns.current {s : Sys} (h : Owns p s) (hfd : 0 ≤ s.globals.sockFd) :
    obtained s.globals.sockFd s.lib.history = released s.globals.sockFd s.lib.history + 1 := by
  have hs := h.settled s.globals.sockFd
  simpa [Sys.current, Int.not_lt.2 hfd] using hs

theorem Sys.current_eq_none {s : Sys} : s.current = none ↔ s.globals.sockFd < 0 := by
  simp [Sys.current]

/-! ## What each call does -/

section Calls

variable {p} {s : Sys} {o : Outcome}

/-- The three exits of `udp_transport_open`. -/
inductive OpenExit (s : Sys) (o : Outcome) (t : Sys) : Prop where
  | noSocket (hsocket : o.socket < 0) (hcurrent : t.current = none)
      (hopened : t.opened = some false) (hlib : t.lib = s.lib)
  | notBound (hsocket : 0 ≤ o.socket) (hbind : o.bind < 0) (hcurrent : t.current = some o.socket)
      (hopened : t.opened = some false)
      (hhistory : t.lib.history = .release o.socket :: .acquire o.socket :: s.lib.history)
  | bound (hsocket : 0 ≤ o.socket) (hbind : 0 ≤ o.bind) (hcurrent : t.current = some o.socket)
      (hopened : t.opened = some true)
      (hhistory : t.lib.history = .acquire o.socket :: s.lib.history)
      (howner : t.lib.owner o.socket = some .transport)

theorem openExit : OpenExit s o (s.call p .open o) := by
  by_cases hsocket : o.socket < 0
  · refine .noSocket hsocket ?_ ?_ ?_ <;>
      simp [Sys.call, Call.code, udpTransportOpen, socket, answer, Sys.current, hsocket]
  · by_cases hbind : o.bind < 0
    · refine .notBound (Int.not_lt.1 hsocket) hbind ?_ ?_ ?_ <;>
        simp [Sys.call, Call.code, udpTransportOpen, socket, bind, close, answer, Sys.current,
          hsocket, hbind]
    · refine .bound (Int.not_lt.1 hsocket) (Int.not_lt.1 hbind) ?_ ?_ ?_ ?_ <;>
        simp [Sys.call, Call.code, udpTransportOpen, socket, bind, answer, Sys.current, hsocket,
          hbind]

/-- `udp_transport_close` without a socket, and with one. -/
theorem call_close_none (h : s.current = none) : s.call p .close o = s := by
  have hfd := Sys.current_eq_none.1 h
  simp [Sys.call, Call.code, udpTransportClose, Int.not_le.2 hfd]

theorem call_close_some {fd : Int} (h : s.current = some fd) :
    (s.call p .close o).current = none ∧
      (s.call p .close o).lib.history = .release fd :: s.lib.history := by
  by_cases hfd : s.globals.sockFd < 0
  · simp [Sys.current, hfd] at h
  · have heq : s.globals.sockFd = fd := by simpa [Sys.current, hfd] using h
    have hge : 0 ≤ s.globals.sockFd := Int.not_lt.1 hfd
    rw [← heq]
    simp [Sys.call, Call.code, udpTransportClose, close, answer, Sys.current, hge]

/-- The other two change nothing. -/
theorem call_write (len : Nat) : s.call p (.write len) o = s := by
  by_cases hfd : s.globals.sockFd < 0
  · simp [Sys.call, Call.code, udpTransportWrite, hfd]
  · simp [Sys.call, Call.code, udpTransportWrite, sendto, answer, hfd]

theorem call_read (len : Nat) (timeout : Int) : s.call p (.read len timeout) o = s := by
  by_cases hfd : s.globals.sockFd < 0
  · simp [Sys.call, Call.code, udpTransportRead, hfd]
  · simp [Sys.call, Call.code, udpTransportRead, setsockopt, recv, answer, hfd]

/-- Without a socket no entry point but the open uses the library. -/
theorem socketCalls_of_none (h : s.current = none) {c : Call} (hc : c ≠ .open) :
    c.socketCalls p s o = [] := by
  have hfd := Sys.current_eq_none.1 h
  cases c with
  | «open» => exact absurd rfl hc
  | close => simp [Call.socketCalls, Call.code, udpTransportClose, Int.not_le.2 hfd, Prog.trace]
  | write len => simp [Call.socketCalls, Call.code, udpTransportWrite, hfd, Prog.trace]
  | read len timeout => simp [Call.socketCalls, Call.code, udpTransportRead, hfd, Prog.trace]

end Calls

/-! ## Runs -/

/-- The socket is opened only when there is none, and then `bind` does not fail. -/
def Guarded (s : Sys) : Label → Prop
  | .call .open o => s.globals.sockFd < 0 ∧ (0 ≤ o.socket → 0 ≤ o.bind)
  | _ => True

/-- What guarded calls keep: the socket is open and the transport's, and after an open that failed
there is none. -/
structure Inv (s : Sys) : Prop where
  settled : Settles s.lib.history s.current
  failed : s.opened = some false → s.current = none
  owner : ∀ fd, s.current = some fd → s.lib.owner fd = some .transport

variable {p} {s t : Sys} {l : Label}

theorem Inv.boot (others : Int → Bool) : Inv (boot others) where
  settled := .nil
  failed _ := rfl
  owner _ h := by cases h

theorem Inv.owns (h : Inv s) : Owns p s :=
  ⟨h.settled, fun hopened _ _ hc => socketCalls_of_none (h.failed hopened) hc⟩

theorem Inv.open (h : Inv s) {o : Outcome} (hfd : s.globals.sockFd < 0)
    (hbind : 0 ≤ o.socket → 0 ≤ o.bind) : Inv (s.call p .open o) := by
  have hsettled := Sys.current_eq_none.2 hfd ▸ h.settled
  cases openExit (p := p) (s := s) (o := o) with
  | noSocket hsocket hcurrent hopened hlib =>
      refine ⟨?_, fun _ => hcurrent, ?_⟩
      · rw [hcurrent, hlib]
        exact hsettled
      · intro fd hfd'
        cases hcurrent.symm.trans hfd'
  | notBound hsocket hfail =>
      exact absurd (hbind hsocket) (Int.not_le.2 hfail)
  | bound hsocket hbind hcurrent hopened hhistory howner =>
      refine ⟨?_, ?_, ?_⟩
      · rw [hcurrent, hhistory]
        exact hsettled.acquire _
      · intro hfalse
        cases hopened.symm.trans hfalse
      · intro fd hfd'
        cases hcurrent.symm.trans hfd'
        exact howner

theorem Inv.close (h : Inv s) {o : Outcome} : Inv (s.call p .close o) := by
  cases hcur : s.current with
  | none =>
      rw [call_close_none hcur]
      exact h
  | some fd =>
      rcases call_close_some (p := p) (o := o) hcur with ⟨hnone, hhistory⟩
      refine ⟨?_, fun _ => hnone, ?_⟩
      · rw [hnone, hhistory]
        exact (hcur ▸ h.settled).release
      · intro fd' hfd'
        cases hnone.symm.trans hfd'

theorem Inv.step (h : Inv s) (hstep : Udp.step p l s = some t) (hok : Guarded s l) : Inv t := by
  cases l with
  | call c o =>
      simp only [Udp.step] at hstep
      split at hstep
      · cases hstep
        cases c with
        | «open» => exact h.open hok.1 hok.2
        | close => exact h.close
        | write len =>
            rw [call_write]
            exact h
        | read len timeout =>
            rw [call_read]
            exact h
      · cases hstep
  | otherSocket fd =>
      simp only [Udp.step] at hstep
      split at hstep
      · rename_i hfresh
        cases hstep
        refine ⟨h.settled, h.failed, ?_⟩
        intro fd' hfd'
        have hother := h.owner fd' hfd'
        have hne : fd' ≠ fd := by
          rintro rfl
          -- The descriptor is the transport's, so it is neither negative nor free.
          rcases hfresh with hneg | hfree
          · simp only [Sys.current] at hfd'
            split at hfd'
            · cases hfd'
            · rename_i hnot
              cases hfd'
              exact hnot hneg
          · rw [hother] at hfree
            cases hfree
        change Function.update s.lib.owner fd (some .other) fd' = _
        rw [Function.update_of_ne hne]
        exact hother
      · cases hstep
  | otherClose fd =>
      simp only [Udp.step] at hstep
      split at hstep
      · rename_i hother
        cases hstep
        refine ⟨h.settled, h.failed, ?_⟩
        intro fd' hfd'
        have hown := h.owner fd' hfd'
        have hne : fd' ≠ fd := by
          rintro rfl
          cases hown.symm.trans hother
        change Function.update s.lib.owner fd none fd' = _
        rw [Function.update_of_ne hne]
        exact hown
      · cases hstep

/-- An unguarded open loses a descriptor: the one it overwrites, or the one it has closed. -/
theorem Inv.guarded_of_owns (h : Inv s) (hstep : Udp.step p l s = some t) (ht : Owns p t) :
    Guarded s l := by
  cases l with
  | otherSocket fd => trivial
  | otherClose fd => trivial
  | call c o =>
      simp only [Udp.step] at hstep
      split at hstep
      · rename_i hfresh
        cases hstep
        cases c with
        | close => trivial
        | write len => trivial
        | read len timeout => trivial
        | «open» =>
            have hsettled := ht.settled
            cases openExit (p := p) (s := s) (o := o) with
            | noSocket hsocket hcurrent hopened hlib =>
                rw [hcurrent, hlib] at hsettled
                have hnone := h.settled.unique hsettled
                exact ⟨Sys.current_eq_none.1 hnone, fun hge => absurd hsocket (Int.not_lt.2 hge)⟩
            | notBound hsocket hbind hcurrent hopened hhistory =>
                -- The history settles as before the open, but `sock_fd` names the new descriptor,
                -- which cannot be the old one.
                rw [hcurrent, hhistory] at hsettled
                have hbefore : Settles s.lib.history (some o.socket) := by
                  intro fd
                  have hfd := hsettled fd
                  simp only [obtained_release, obtained_acquire, released_release,
                    released_acquire] at hfd
                  exact Nat.add_right_cancel (hfd.trans (Nat.add_right_comm _ _ _))
                have howner := h.owner _ (h.settled.unique hbefore)
                rcases hfresh with hneg | hfree
                · exact absurd hneg (Int.not_lt.2 hsocket)
                · rw [howner] at hfree
                  cases hfree
            | bound hsocket hbind hcurrent hopened hhistory howner =>
                rw [hcurrent, hhistory] at hsettled
                cases hcur : s.current with
                | none => exact ⟨Sys.current_eq_none.1 hcur, fun _ => hbind⟩
                | some fd => exact absurd hsettled (hcur ▸ h.settled).not_acquire
      · cases hstep

/-- The transport owns its descriptors in every state of every run. -/
def AlwaysOwns : Prop :=
  ∀ (p : Platform) (others : Int → Bool) (ls : List Label) (t : Sys),
    Run (step p) Free (boot others) ls t → Owns p t

/-- `socket` answers 3 and `bind` fails. -/
theorem not_alwaysOwns : ¬ AlwaysOwns := by
  intro h
  have hrun : Run (step ⟨8888#16, 0x0100007F#32⟩) Free (boot fun _ => false)
      [.call .open ⟨3, -1, 0, 0⟩] ((boot fun _ => false).call _ .open ⟨3, -1, 0, 0⟩) :=
    .single trivial rfl
  have hcurrent := (h _ _ _ _ hrun).current
  exact absurd (hcurrent (by decide)) (by decide)

/-- In every run the transport owns its descriptors in each state visited exactly if every open
finds no socket and binds the one it gets. -/
theorem owns_iff_guarded (p : Platform) (others : Int → Bool) (ls : List Label) (t : Sys) :
    (Run (step p) (fun s _ => Owns p s) (boot others) ls t ∧ Owns p t) ↔
      Run (step p) Guarded (boot others) ls t :=
  Run.stays_iff (fun _ h => h.owns) (fun _ _ _ h hstep hok => h.step hstep hok)
    (fun _ _ _ h hstep ht => h.guarded_of_owns hstep ht) (Inv.boot others)

end Udp
end PicoCppSdk
