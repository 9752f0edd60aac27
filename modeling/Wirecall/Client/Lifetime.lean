import Wirecall.Machine.Run
import Wirecall.Memory.BlockLedger
import Wirecall.Memory.Growth

/-!
# The life of a client

`wirecall_client_connect` takes memory for the client, on Windows the socket library, and a socket
for each address until one connects. It can fail after any of these, and `wirecall_client_close`,
which it calls then, must give back what was taken and no more. Later calls let the read buffer
grow, and the last call closes the client.

## Main definitions

* `connectAddresses`: the loop of `wirecall_client_connect`
* `Life.connect`, `Life.growBuffer`, `Life.close`: what the calls take and give back
* `Life.Holds`: what is taken is what the client holds

## Main results

* `connectAddresses_spec`: the first address that connects is used, and all other sockets are closed
* `Life.Holds.step`: every call keeps it
* `client_leaves_nothing`: **without a client nothing is held**, whatever failed before
-/

namespace Wirecall

open Machine

/-- What becomes of an address: the socket that is made for it, and whether it connects. -/
structure Attempt where
  fd : Option ℕ
  connects : Bool
  deriving DecidableEq, Repr

/-- The loop of `wirecall_client_connect`: the descriptor the client gets, the sockets that are
opened and those that are closed. -/
def connectAddresses : List Attempt → Option ℕ × List ℕ × List ℕ
  | [] => (none, [], [])
  | ⟨none, _⟩ :: rest => connectAddresses rest
  | ⟨some fd, true⟩ :: _ => (some fd, [fd], [])
  | ⟨some fd, false⟩ :: rest =>
    let r := connectAddresses rest
    (r.1, fd :: r.2.1, fd :: r.2.2)

/-- The socket of an address that connects. -/
def Attempt.connected (a : Attempt) : Option ℕ := if a.connects then a.fd else none

/-- **The first address that connects is used**, and every other socket is closed again. -/
theorem connectAddresses_spec (attempts : List Attempt) :
    (connectAddresses attempts).1 = attempts.findSome? Attempt.connected ∧
      (connectAddresses attempts).2.1.Perm
        ((connectAddresses attempts).1.toList ++ (connectAddresses attempts).2.2) := by
  induction attempts with
  | nil => exact ⟨rfl, .refl _⟩
  | cons a rest ih =>
    obtain ⟨fd, connects⟩ := a
    cases fd with
    | none =>
      cases connects
      · exact ih
      · exact ih
    | some fd =>
      cases connects with
      | true => exact ⟨rfl, .refl _⟩
      | false => exact ⟨ih.1, (ih.2.cons fd).trans List.perm_middle.symm⟩

/-- What a client holds: its own block, its socket, and its read buffer. -/
structure ClientHeld where
  block : ℕ
  fd : Option ℕ
  readBuf : Option ℕ
  deriving DecidableEq, Repr

/-- What was taken and given back so far, with the client if there is one. -/
structure Life where
  ledger : BlockLedger
  opened : List ℕ
  closed : List ℕ
  /-- The calls of `WSAStartup` that succeeded, and those of `WSACleanup`. -/
  startups : ℕ
  cleanups : ℕ
  client : Option ClientHeld
  deriving DecidableEq, Repr

/-- What `wirecall_client_connect` meets: whether there is memory, the answer of `WSAStartup`, which
is called on Windows only, and that of `getaddrinfo`. -/
structure ConnectEnv where
  granted : Bool
  startup : Option Bool
  addresses : Option (List Attempt)

namespace Life

/-- `wirecall_client_close` of a client; `wsa` says whether `wsa_ready` is set. -/
def close (l : Life) (wsa : Bool) (c : ClientHeld) : Life where
  ledger := (l.ledger.free c.readBuf).release c.block
  opened := l.opened
  closed := l.closed ++ c.fd.toList
  startups := l.startups
  cleanups := l.cleanups + wsa.toNat
  client := none

/-- `wirecall_client_connect` after the client and the socket library are there. -/
def resolve (l : Life) (env : ConnectEnv) (block : ℕ) : Rc × Life :=
  match env.addresses with
  | none => (.err, l.close env.startup.isSome ⟨block, none, none⟩)
  | some attempts =>
    let r := connectAddresses attempts
    let l := { l with opened := l.opened ++ r.2.1, closed := l.closed ++ r.2.2 }
    match r.1 with
    | none => (.err, l.close env.startup.isSome ⟨block, none, none⟩)
    | some fd => (.ok, { l with client := some ⟨block, some fd, none⟩ })

/-- `wirecall_client_connect`. -/
def connect (l : Life) (env : ConnectEnv) : Rc × Life :=
  if env.granted then
    let block := l.ledger.next
    let l := { l with ledger := l.ledger.acquire }
    match env.startup with
    | some false => (.err, { l with ledger := l.ledger.release block })
    | some true => { l with startups := l.startups + 1 }.resolve env block
    | none => l.resolve env block
  else (.err, l)

/-- The `wirecall_mem_realloc` of `client_read_reserve`: a new block, with the old one freed. -/
def growBuffer (l : Life) (c : ClientHeld) (granted : Bool) : Life :=
  if granted then
    { l with
      ledger := l.ledger.acquire.free c.readBuf
      client := some { c with readBuf := some l.ledger.next } }
  else l

end Life

/-- A call of the program; `windows` is fixed by the platform. -/
inductive LifeOp where
  | connect (env : ConnectEnv)
  | grow (granted : Bool)
  | close

/-- One call: a client is connected while there is none, and used and closed while there is one. -/
def Life.step (windows : Bool) (l : Life) : LifeOp → Option Life
  | .connect env =>
    if l.client.isNone ∧ env.startup.isSome = windows then some (l.connect env).2 else none
  | .grow granted => l.client.map fun c => l.growBuffer c granted
  | .close => l.client.map fun c => l.close windows c

def Life.init : Life := ⟨.empty, [], [], 0, 0, none⟩

/-- The blocks of a client. -/
def ClientHeld.blocks (c : ClientHeld) : List ℕ := c.readBuf.toList ++ [c.block]

/-- **What was taken and not given back is what the client holds.** -/
structure Life.Holds (windows : Bool) (l : Life) (client : Option ClientHeld) : Prop where
  owns : l.ledger.Owns (client.toList.flatMap ClientHeld.blocks)
  sockets : l.opened.Perm (client.toList.flatMap (fun c => c.fd.toList) ++ l.closed)
  library : l.startups = l.cleanups + if windows then client.toList.length else 0

namespace Life.Holds

variable {windows : Bool} {l l' : Life} {c : ClientHeld}

/-- Closing a client gives back all it holds. -/
theorem close (h : Holds windows l (some c)) : Holds windows (l.close windows c) none := by
  obtain ⟨howns, hsockets, hlibrary⟩ := h
  refine ⟨?_, ?_, ?_⟩
  · apply BlockLedger.Owns.release
    apply BlockLedger.Owns.free
    simpa [ClientHeld.blocks] using howns
  · refine hsockets.trans ?_
    simpa [Life.close] using List.perm_append_comm
  · cases windows <;> simpa [Life.close] using hlibrary

/-- A client that has no socket, once the library is there. -/
theorem acquired (h : Holds windows l none) :
    Holds windows
      { l with ledger := l.ledger.acquire, startups := l.startups + windows.toNat }
      (some ⟨l.ledger.next, none, none⟩) := by
  obtain ⟨howns, hsockets, hlibrary⟩ := h
  refine ⟨howns.acquire, hsockets, ?_⟩
  cases windows <;> simpa using hlibrary

theorem resolve {env : ConnectEnv} {block : ℕ} (h : Holds windows l (some ⟨block, none, none⟩))
    (hwsa : env.startup.isSome = windows) :
    Holds windows (l.resolve env block).2 (l.resolve env block).2.client := by
  unfold Life.resolve
  rw [hwsa]
  cases env.addresses with
  | none => exact h.close
  | some attempts =>
    obtain ⟨-, hperm⟩ := connectAddresses_spec attempts
    dsimp only
    -- the sockets of the loop, all closed but one that connected
    have hsockets : (l.opened ++ (connectAddresses attempts).2.1).Perm
        ((connectAddresses attempts).1.toList ++
          (l.closed ++ (connectAddresses attempts).2.2)) := by
      have hopened : l.opened.Perm l.closed := h.sockets
      refine (hopened.append hperm).trans ?_
      rw [← List.append_assoc, ← List.append_assoc]
      exact List.perm_append_comm.append_right _
    cases hfd : (connectAddresses attempts).1 with
    | none =>
      rw [hfd] at hsockets
      exact Holds.close ⟨h.owns, hsockets, h.library⟩
    | some fd =>
      rw [hfd] at hsockets
      exact ⟨h.owns, hsockets, h.library⟩

theorem connect {env : ConnectEnv} (h : Holds windows l none) (hclient : l.client = none)
    (hwsa : env.startup.isSome = windows) :
    Holds windows (l.connect env).2 (l.connect env).2.client := by
  have hheld := h.acquired
  unfold Life.connect
  split_ifs with hgranted
  · cases hstartup : env.startup with
    | none =>
      rw [hstartup] at hwsa
      subst hwsa
      exact hheld.resolve (by rw [hstartup])
    | some started =>
      rw [hstartup] at hwsa
      subst hwsa
      cases started with
      | true => exact hheld.resolve (by rw [hstartup])
      | false =>
        -- the memory goes back; the library was not obtained
        dsimp only
        rw [hclient]
        exact ⟨h.owns.acquire.release, h.sockets, h.library⟩
  · dsimp only
    rw [hclient]
    exact h

theorem growBuffer (h : Holds windows l (some c)) (granted : Bool) (hclient : l.client = some c) :
    Holds windows (l.growBuffer c granted) (l.growBuffer c granted).client := by
  unfold Life.growBuffer
  split_ifs
  · refine ⟨?_, h.sockets, h.library⟩
    apply BlockLedger.Owns.free
    have howns := h.owns.acquire
    refine howns.perm ?_
    simpa [ClientHeld.blocks] using List.perm_middle.symm
  · rw [hclient]
    exact h

theorem step {op : LifeOp} (h : Holds windows l l.client) (hstep : l.step windows op = some l') :
    Holds windows l' l'.client := by
  cases op with
  | connect env =>
    simp only [Life.step] at hstep
    split_ifs at hstep with hguard
    cases hstep
    have hclient : l.client = none := Option.isNone_iff_eq_none.mp hguard.1
    rw [hclient] at h
    exact h.connect hclient hguard.2
  | grow granted =>
    obtain ⟨c, hclient, rfl⟩ := Option.map_eq_some_iff.mp hstep
    rw [hclient] at h
    exact h.growBuffer granted hclient
  | close =>
    obtain ⟨c, hclient, rfl⟩ := Option.map_eq_some_iff.mp hstep
    rw [hclient] at h
    exact h.close

end Life.Holds

/-- A call that returns 0 made a client with the socket of the first address that connects, and one
that returns -1 made none. -/
theorem Life.resolve_client (l : Life) (env : ConnectEnv) (block : ℕ) :
    (l.resolve env block).2.client =
        ((env.addresses.getD []).findSome? Attempt.connected).map
          (fun fd => ⟨block, some fd, none⟩) ∧
      ((l.resolve env block).1 = .ok ↔ (l.resolve env block).2.client.isSome = true) := by
  unfold Life.resolve
  cases env.addresses with
  | none => exact ⟨rfl, by simp [Life.close]⟩
  | some attempts =>
    obtain ⟨hfirst, -⟩ := connectAddresses_spec attempts
    dsimp only
    rw [Option.getD_some, ← hfirst]
    cases (connectAddresses attempts).1 with
    | none => exact ⟨rfl, by simp [Life.close]⟩
    | some fd => exact ⟨rfl, by simp⟩

/-- `wirecall_client_connect` returns 0 exactly if there is memory, the socket library starts and
some address connects; the client then has the socket of the first one that does. -/
theorem Life.connect_client {l : Life} (hclient : l.client = none) (env : ConnectEnv) :
    ((l.connect env).1 = .ok ↔ (l.connect env).2.client.isSome = true) ∧
      (l.connect env).2.client.bind ClientHeld.fd =
        if env.granted = true ∧ env.startup ≠ some false then
          (env.addresses.getD []).findSome? Attempt.connected
        else none := by
  unfold Life.connect
  cases hgranted : env.granted with
  | false => simp [hclient]
  | true =>
    cases hstartup : env.startup with
    | none =>
      obtain ⟨hheld, hrc⟩ := Life.resolve_client
        { l with ledger := l.ledger.acquire } env l.ledger.next
      refine ⟨hrc, (congrArg (fun client => client.bind ClientHeld.fd) hheld).trans ?_⟩
      rw [if_pos ⟨rfl, by simp⟩]
      cases (env.addresses.getD []).findSome? Attempt.connected <;> rfl
    | some started =>
      cases started with
      | false => simp [hclient]
      | true =>
        obtain ⟨hheld, hrc⟩ := Life.resolve_client
          { l with ledger := l.ledger.acquire, startups := l.startups + 1 } env l.ledger.next
        refine ⟨hrc, (congrArg (fun client => client.bind ClientHeld.fd) hheld).trans ?_⟩
        rw [if_pos ⟨rfl, by simp⟩]
        cases (env.addresses.getD []).findSome? Attempt.connected <;> rfl

/-- **Without a client nothing is held.** In every sequence of connects, growing buffers and closes,
whatever fails at whatever point: what was taken and not given back is the memory, the socket and
the socket library of the client. So once there is none, every block was freed exactly once, every
socket closed as often as it was opened, and every start of the library matched. A further connect
returns 0 exactly if it leaves a client, with the socket of the first address that connects. -/
theorem client_leaves_nothing (windows : Bool) (ops : List LifeOp) (l : Life)
    (hexec : exec (Life.step windows) Life.init ops = some l) :
    l.Holds windows l.client ∧
    (l.client = none → l.ledger.Settled ∧ l.opened.Perm l.closed ∧ l.startups = l.cleanups ∧
      ∀ env, ((l.connect env).1 = .ok ↔ (l.connect env).2.client.isSome = true) ∧
        (l.connect env).2.client.bind ClientHeld.fd =
          if env.granted = true ∧ env.startup ≠ some false then
            (env.addresses.getD []).findSome? Attempt.connected
          else none) := by
  have hmeets : Meets (Life.step windows) (fun _ _ => True) Life.init ops :=
    .of_forall fun _ _ _ => trivial
  have hinit : Life.init.Holds windows Life.init.client := by
    refine ⟨BlockLedger.owns_empty, .refl _, ?_⟩
    cases windows <;> rfl
  have h : l.Holds windows l.client :=
    exec_invariant (P := fun l => l.Holds windows l.client)
      (fun _ _ _ h _ hstep => h.step hstep) hinit hmeets hexec
  refine ⟨h, fun hclient => ?_⟩
  rw [hclient] at h
  refine ⟨h.owns.settled, h.sockets, ?_, Life.connect_client hclient⟩
  have hlibrary := h.library
  simpa using hlibrary

/-- On Windows: no library, then no address that connects, then the second one does; the buffer
grows twice, and the client is closed. -/
def threeConnects : List LifeOp :=
  [.connect ⟨true, some false, none⟩,
    .connect ⟨true, some true, some [⟨some 3, false⟩, ⟨none, true⟩]⟩,
    .connect ⟨true, some true, some [⟨some 4, false⟩, ⟨some 5, true⟩, ⟨some 6, true⟩]⟩,
    .grow true, .grow false, .grow true, .close]

theorem client_leaves_nothing_three : ∃ l,
    exec (Life.step true) Life.init threeConnects = some l ∧ l.opened = [3, 4, 5] ∧
      l.closed.Perm [3, 4, 5] ∧ l.ledger.next = 5 ∧ l.ledger.Settled ∧ l.cleanups = 2 := by
  have hrun : (exec (Life.step true) Life.init threeConnects).any (fun l => decide
      (l.client = none ∧ l.opened = [3, 4, 5] ∧ l.ledger.next = 5 ∧ l.startups = 2)) = true := by
    decide +kernel
  obtain ⟨l, hexec, hend⟩ := exists_of_any hrun
  obtain ⟨hclient, hopened, hnext, hstartups⟩ := of_decide_eq_true hend
  obtain ⟨-, hnothing⟩ := client_leaves_nothing true threeConnects l hexec
  obtain ⟨hsettled, hsockets, hlibrary, -⟩ := hnothing hclient
  rw [hopened] at hsockets
  exact ⟨l, hexec, hopened, hsockets.symm, hnext, hsettled, hlibrary.symm.trans hstartups⟩

end Wirecall
