import Mtk3Smp.Lib.SeqLock
import Mtk3Smp.Lib.Lts

/-!
# The radio status

`radio_status` of `cyw43_utk.c`: the radio-owner task stores to it while it starts, in its
publications and in the callbacks that run inside `cyw43_poll` and other calls, and
`cyw43_utk_get_status` copies it on the other core. A step is one access to the version or to a
field.
-/

namespace Mtk3Smp

/-- The fields of T_CYW43_UTK_STATUS that are stored outside publications, the elements of arrays
by their index, and `status_retries`; the others by number. -/
inductive StatusField
  | ownerPrc | lwipInitialized | mac (i : Nat)
  | netifInitialized | netifUp | netifLinkUp | netifDefault | netifCallbacksReady | netifNoSys
  | netifMtu | netifMac (i : Nat) | linkUp | linkStatus
  | ipv4ConfigResult | ipv4Configured | arpResolved | pingStarted | pingComplete
  | pingSendResult | pingResult | pingAttempts | pingElapsedMs
  | ipv4Address (i : Nat) | ipv4Netmask (i : Nat) | ipv4Gateway (i : Nat) | pingTarget (i : Nat)
  | arpMac (i : Nat)
  | initResult | ready | scanActive | initComplete | scanCount | strongestRssi
  | dnsComplete | dnsElapsedMs | dnsResult | dnsAddress (i : Nat)
  | statusRetries | other (i : Nat)
  deriving DecidableEq, Repr

open StatusField

abbrev StatusStore := StatusField × Int

def CYW43_LINK_DOWN : Int := 0
def ERR_OK : Int := 0
def ERR_VAL : Int := -6
def CYW43_STATUS_READ_ATTEMPTS : Nat := 16

/-- The bytes of an array field. -/
def bytes (f : Nat → StatusField) (l : List Int) : List StatusStore :=
  l.zipIdx.map fun x => (f x.2, x.1)

/-- What `update_netif_status` reads of the netif. -/
structure Netif where
  initialized : Int
  up : Int
  linkUp : Int
  default : Int
  callbacksReady : Int
  noSys : Int
  mtu : Int
  hwaddr : List Int

/-- `update_netif_status` -/
def updateNetifStatus (n : Netif) : List StatusStore :=
  [(netifInitialized, n.initialized), (netifUp, n.up), (netifLinkUp, n.linkUp),
    (netifDefault, n.default), (netifCallbacksReady, n.callbacksReady), (netifNoSys, n.noSys),
    (netifMtu, n.mtu)] ++ bytes netifMac n.hwaddr ++ [(linkUp, n.linkUp)]

/-- T_LWIP_UTK_IPV4_STATUS -/
structure Ipv4Status where
  configResult : Int
  configured : Int
  arpResolved : Int
  pingStarted : Int
  pingComplete : Int
  pingSendResult : Int
  pingResult : Int
  pingAttempts : Int
  pingElapsedMs : Int
  address : List (Int × Int × Int × Int)
  arpMac : List Int

/-- `update_ipv4_status`; `address` are the bytes of the address, the netmask, the gateway and the
target. -/
def updateIpv4Status (v : Ipv4Status) : List StatusStore :=
  [(ipv4ConfigResult, v.configResult), (ipv4Configured, v.configured),
    (arpResolved, v.arpResolved), (pingStarted, v.pingStarted), (pingComplete, v.pingComplete),
    (pingSendResult, v.pingSendResult), (pingResult, v.pingResult),
    (pingAttempts, v.pingAttempts), (pingElapsedMs, v.pingElapsedMs)] ++
  (v.address.zipIdx.flatMap fun ((a, m, g, t), i) =>
    [(ipv4Address i, a), (ipv4Netmask i, m), (ipv4Gateway i, g), (pingTarget i, t)]) ++
  bytes arpMac v.arpMac

/-- What the radio-owner task finds while it starts: `netif` with TM_WIFI_NETIF, `static` with
TM_WIFI_STATIC, `mac` when the interface came up, and the result of that or of the scan. -/
structure RadioInit where
  prc : Int
  netif : Option Netif
  static : Option (Int × Ipv4Status)
  mac : Option (List Int)
  result : Int

/-- The stores of `cyw43_utk_task` before its loop. -/
def initStores (v : RadioInit) : List StatusStore :=
  [(ownerPrc, v.prc)] ++
  (match v.netif with
  | some _ => [(lwipInitialized, 1)]
  | none => []) ++
  (match v.mac with
  | some l => bytes mac l
  | none => []) ++
  (match v.netif with
  | some n => updateNetifStatus n
  | none => []) ++
  (match v.static with
  | some (r, x) => (ipv4ConfigResult, r) :: updateIpv4Status x
  | none => []) ++
  [(initResult, v.result), (ready, if v.result = 0 then 1 else 0),
    (scanActive, if v.result = 0 then 1 else 0), (initComplete, 1)]

/-- The callbacks of the driver and of lwIP. -/
inductive RadioCallback
  | linkStateChanged (up : Int)
  | scanResult (rssi : Option Int)
  /-- the elapsed time and the address -/
  | dnsFound (elapsed : Int) (address : Option (List Int))

/-- `cyw43_utk_link_state_changed`, `scan_result` and `dns_found`. -/
def RadioCallback.stores (status : StatusField → Int) : RadioCallback → List StatusStore
  | .linkStateChanged up =>
    (linkUp, if up ≠ 0 then 1 else 0) :: if up = 0 then [(linkStatus, CYW43_LINK_DOWN)] else []
  | .scanResult none => []
  | .scanResult (some rssi) =>
    (scanCount, status scanCount + 1) ::
      if status strongestRssi < rssi then [(strongestRssi, rssi)] else []
  | .dnsFound elapsed address =>
    if status dnsComplete ≠ 0 then []
    else
      (dnsElapsedMs, elapsed) ::
        (match address with
        | none => [(dnsResult, ERR_VAL)]
        | some l => bytes dnsAddress l ++ [(dnsResult, ERR_OK)]) ++ [(dnsComplete, 1)]

/-- What the owner task is about to do: `status_version++` or a store. -/
inductive OwnerOp
  | version
  | store (f : StatusField) (v : Int)
  deriving DecidableEq

/-- The result of `cyw43_utk_get_status`: whether the attempts ran out, the status at the last
second read of the version, and whether the owner task was between two updates then. -/
structure StatusCopy where
  dest : StatusField → Int
  exhausted : Bool
  status : StatusField → Int
  between : Bool

/-- Where a caller of `cyw43_utk_get_status` is. -/
inductive ReaderPc
  | idle
  /-- before the first read of the version -/
  | attempt (n : Nat) (dest : StatusField → Int)
  /-- the fields still to be copied -/
  | copying (n : Nat) (r : SeqRead StatusField Int) (left : List StatusField)
  /-- before `status->status_retries` is stored -/
  | leaving (c : StatusCopy)

structure RadioSys where
  /-- `status_version` and `radio_status` -/
  lock : SeqLock StatusField Int
  /-- `status_read_retries` -/
  retries : UInt32
  /-- what the owner task has begun to do; `result` of its start -/
  todo : List OwnerOp
  result : Option Int
  reader : Nat → ReaderPc
  /-- history: the returned copies, newest first -/
  copies : List StatusCopy

inductive RadioEvent
  /-- `cyw43_utk_task` starts -/
  | start (v : RadioInit)
  /-- a callback runs inside whatever the owner task is doing -/
  | callback (c : RadioCallback)
  /-- a publication of the loop, with the stores between its begin and its end -/
  | publish (stores : List StatusStore)
  /-- the next access of the owner task -/
  | owner
  /-- `cyw43_utk_get_status`; `dest` is what `*status` holds -/
  | getStatus (r : Nat) (dest : StatusField → Int)
  /-- the next access of a reader -/
  | reader (r : Nat)

namespace RadioSys

variable (s : RadioSys)

def setReader (r : Nat) (pc : ReaderPc) : RadioSys :=
  { s with reader := Function.update s.reader r pc }

def begin (stores : List StatusStore) : RadioSys :=
  { s with todo := stores.map (fun x => .store x.1 x.2) ++ s.todo }

/-- The next access of the owner task. -/
def ownerStep : OwnerOp → RadioSys
  | .version => { s with lock := s.lock.bump }
  | .store f v => { s with lock := s.lock.store f v }

/-- The owner task is not inside an update: it is about to publish, or has nothing begun. -/
def between : Bool :=
  s.lock.version % 2 = 0 ∧ (s.todo = [] ∨ s.todo.head? = some .version)

/-- The second read of the version, and what follows it in the loop. -/
def checkVersion (t : Nat) (n : Nat) (r : SeqRead StatusField Int) : RadioSys :=
  if s.lock.accepts r then s.setReader t (.leaving ⟨r.dest, false, s.lock.mem, s.between⟩)
  else
    let s := { s with retries := s.retries + 1 }
    if n + 1 < CYW43_STATUS_READ_ATTEMPTS then s.setReader t (.attempt (n + 1) r.dest)
    else s.setReader t (.leaving ⟨r.dest, true, s.lock.mem, s.between⟩)

/-- `status->status_retries = status_read_retries` -/
def storeRetries (t : Nat) (c : StatusCopy) : RadioSys :=
  let dest := Function.update c.dest statusRetries s.retries.toNat
  { s with copies := { c with dest } :: s.copies }.setReader t .idle

/-- The next access of a reader; `fields` are those of the structure, in the order in which they
are copied. -/
def readerStep (fields : List StatusField) (t : Nat) : ReaderPc → Option RadioSys
  | .idle => none
  | .attempt n dest => some (s.setReader t (.copying n (s.lock.beginRead dest) fields))
  | .copying n r (f :: left) => some (s.setReader t (.copying n (s.lock.copy r f) left))
  | .copying n r [] => some (s.checkVersion t n r)
  | .leaving c => some (s.storeRetries t c)

def step (fields : List StatusField) : RadioEvent → Option RadioSys
  | .start v =>
    if s.result = none then some ({ s with result := some v.result }.begin (initStores v)) else none
  | .callback c => if s.result ≠ none then some (s.begin (c.stores s.lock.mem)) else none
  | .publish stores =>
    if s.todo = [] ∧ s.result = some 0 then
      some
        { s with todo := .version :: (stores.map fun x => .store x.1 x.2) ++ [.version] }
    else none
  | .owner =>
    match s.todo with
    | [] => none
    | op :: todo => some ({ s with todo }.ownerStep op)
  | .getStatus r dest =>
    match s.reader r with
    | .idle => some (s.setReader r (.attempt 0 dest))
    | _ => none
  | .reader r => s.readerStep fields r (s.reader r)

/-- Before the owner task has started. -/
def boot (status : StatusField → Int) : RadioSys :=
  { lock := { version := 0, mem := status, bumps := 0, loose := 0 }
    retries := 0
    todo := []
    result := none
    reader := fun _ => .idle
    copies := [] }

end RadioSys

def radioMachine (fields : List StatusField) : Lts RadioSys RadioEvent where
  init s := ∃ status, s = .boot status
  step s e := s.step fields e

/-! ## Copies -/

namespace RadioSys

variable {fields : List StatusField} {s u : RadioSys}

/-- The copy is the status at one instant between two updates, but for the field that the reader
stores itself. -/
def CopyOk (fields : List StatusField) (c : StatusCopy) : Prop :=
  c.exhausted = false →
    c.between = true ∧ ∀ f ∈ fields, f ≠ statusRetries → c.dest f = c.status f

/-- When a copy is accepted, the version has not gone round since the first read of it, and no
store to the status was made outside a publication since then, or is about to be. -/
def Guarded (s : RadioSys) : RadioEvent → Prop
  | .reader t => ∀ n r, s.reader t = .copying n r [] → s.lock.accepts r = true →
    s.lock.bumps < r.bumps + 2 ^ 32 ∧ r.loose = s.lock.loose ∧
      (s.todo = [] ∨ s.todo.head? = some .version)
  | _ => True

instance : DecidablePred s.Guarded
  | .reader t =>
    match ht : s.reader t with
    | .copying n r [] =>
      decidable_of_iff (s.lock.accepts r = true → s.lock.bumps < r.bumps + 2 ^ 32 ∧
        r.loose = s.lock.loose ∧ (s.todo = [] ∨ s.todo.head? = some .version))
        (by simp [Guarded, ht])
    | .copying n r (f :: left) => .isTrue (by simp [Guarded, ht])
    | .idle => .isTrue (by simp [Guarded, ht])
    | .attempt n dest => .isTrue (by simp [Guarded, ht])
    | .leaving c => .isTrue (by simp [Guarded, ht])
  | .start _ | .callback _ | .publish _ | .owner | .getStatus .. => .isTrue trivial

structure RadioOk (fields : List StatusField) (s : RadioSys) : Prop where
  counted : s.lock.Counted
  reads : ∀ t n r left, s.reader t = .copying n r left →
    s.lock.Reads r ∧ ∀ f ∈ fields, f ∈ r.copied ∨ f ∈ left
  leaving : ∀ t c, s.reader t = .leaving c → CopyOk fields c
  copies : ∀ c ∈ s.copies, CopyOk fields c

/-- A reader goes on; the counter of retries is not looked at. -/
theorem RadioOk.setReader (h : RadioOk fields s) {t : Nat} {pc : ReaderPc} {retries : UInt32}
    {copies : List StatusCopy}
    (hreads : ∀ n r left, pc = .copying n r left →
      s.lock.Reads r ∧ ∀ f ∈ fields, f ∈ r.copied ∨ f ∈ left)
    (hleaving : ∀ c, pc = .leaving c → CopyOk fields c)
    (hcopies : ∀ c ∈ copies, CopyOk fields c) :
    RadioOk fields ({ s with retries, copies }.setReader t pc) where
  counted := h.counted
  reads v n r left hv := by
    have heq : Function.update s.reader t pc v = .copying n r left := hv
    by_cases hvt : v = t
    · subst hvt
      rw [Function.update_self] at heq
      exact hreads n r left heq
    · rw [Function.update_of_ne hvt] at heq
      exact h.reads v n r left heq
  leaving v c hv := by
    have heq : Function.update s.reader t pc v = .leaving c := hv
    by_cases hvt : v = t
    · subst hvt
      rw [Function.update_self] at heq
      exact hleaving c heq
    · rw [Function.update_of_ne hvt] at heq
      exact h.leaving v c heq
  copies := hcopies

/-- The owner task goes on. -/
theorem RadioOk.setLock (h : RadioOk fields s) {lock : SeqLock StatusField Int}
    {todo : List OwnerOp} {result : Option Int} (hc : lock.Counted)
    (hr : ∀ r, s.lock.Reads r → lock.Reads r) :
    RadioOk fields { s with lock, todo, result } where
  counted := hc
  reads t n r left ht := ⟨hr r (h.reads t n r left ht).1, (h.reads t n r left ht).2⟩
  leaving := h.leaving
  copies := h.copies

theorem RadioOk.checkVersion (h : RadioOk fields s) {t n : Nat} {r : SeqRead StatusField Int}
    (ht : s.reader t = .copying n r []) (hcond : s.Guarded (.reader t)) :
    RadioOk fields (s.checkVersion t n r) := by
  obtain ⟨hreads, hall⟩ := h.reads t n r [] ht
  unfold RadioSys.checkVersion
  split
  next ha =>
    obtain ⟨hround, hloose, hidle⟩ := hcond n r ht ha
    obtain ⟨hsame, heven⟩ := hreads.accepted h.counted ha hround hloose
    refine h.setReader ?_ ?_ h.copies
    · intro n' r' left hc
      cases hc
    · intro c hc
      obtain rfl := ReaderPc.leaving.inj hc
      intro _
      refine ⟨decide_eq_true ⟨heven, hidle⟩, fun f hf _ => hsame f ?_⟩
      rcases hall f hf with hcopied | hleft
      · exact hcopied
      · cases hleft
  next =>
    dsimp only
    split
    · refine h.setReader ?_ ?_ h.copies
      · intro n' r' left hc
        cases hc
      · intro c hc
        cases hc
    · refine h.setReader ?_ ?_ h.copies
      · intro n' r' left hc
        cases hc
      · intro c hc
        obtain rfl := ReaderPc.leaving.inj hc
        intro hex
        cases hex

theorem RadioOk.readerStep (h : RadioOk fields s) {t : Nat} {pc : ReaderPc}
    (ht : s.reader t = pc) (hcond : s.Guarded (.reader t))
    (hs : s.readerStep fields t pc = some u) : RadioOk fields u := by
  cases pc with
  | idle => cases hs
  | attempt n dest =>
    obtain rfl := Option.some.inj hs
    refine h.setReader ?_ ?_ h.copies
    · intro n' r left hc
      obtain ⟨rfl, rfl, rfl⟩ := ReaderPc.copying.inj hc
      exact ⟨SeqLock.reads_beginRead h.counted dest, fun f hf => .inr hf⟩
    · intro c hc
      cases hc
  | copying n r left =>
    cases left with
    | nil =>
      obtain rfl := Option.some.inj hs
      exact h.checkVersion ht hcond
    | cons f left =>
      obtain rfl := Option.some.inj hs
      obtain ⟨hreads, hall⟩ := h.reads t n r (f :: left) ht
      refine h.setReader ?_ ?_ h.copies
      · intro n' r' left' hc
        obtain ⟨rfl, rfl, rfl⟩ := ReaderPc.copying.inj hc
        refine ⟨hreads.copy f, fun g hg => ?_⟩
        rcases hall g hg with hcopied | hleft
        · exact .inl (List.mem_cons_of_mem f hcopied)
        · rcases List.mem_cons.1 hleft with rfl | hleft
          · exact .inl List.mem_cons_self
          · exact .inr hleft
      · intro c hc
        cases hc
  | leaving c =>
    obtain rfl := Option.some.inj hs
    refine h.setReader ?_ ?_ ?_
    · intro n' r left hc
      cases hc
    · intro c' hc
      cases hc
    · intro c' hc'
      rcases List.mem_cons.1 hc' with rfl | hc'
      · intro hex
        obtain ⟨hbetween, hsame⟩ := h.leaving t c ht hex
        refine ⟨hbetween, fun f hf hne => ?_⟩
        show Function.update c.dest statusRetries _ f = _
        rw [Function.update_of_ne hne]
        exact hsame f hf hne
      · exact h.copies c' hc'

theorem RadioOk.step (h : RadioOk fields s) {e : RadioEvent} (hcond : s.Guarded e)
    (hs : s.step fields e = some u) : RadioOk fields u := by
  cases e with
  | start v =>
    simp only [RadioSys.step] at hs
    split at hs
    · obtain rfl := Option.some.inj hs
      exact h.setLock h.counted fun _ hr => hr
    · cases hs
  | callback c =>
    simp only [RadioSys.step] at hs
    split at hs
    · obtain rfl := Option.some.inj hs
      exact h.setLock h.counted fun _ hr => hr
    · cases hs
  | publish stores =>
    simp only [RadioSys.step] at hs
    split at hs
    · obtain rfl := Option.some.inj hs
      exact h.setLock h.counted fun _ hr => hr
    · cases hs
  | owner =>
    simp only [RadioSys.step] at hs
    cases htodo : s.todo with
    | nil =>
      rw [htodo] at hs
      cases hs
    | cons op todo =>
      rw [htodo] at hs
      obtain rfl := Option.some.inj hs
      cases op with
      | version => exact h.setLock h.counted.bump fun _ hr => hr.bump
      | store f v => exact h.setLock (h.counted.store f v) fun _ hr => hr.store h.counted f v
  | getStatus r dest =>
    simp only [RadioSys.step] at hs
    split at hs
    · obtain rfl := Option.some.inj hs
      refine h.setReader ?_ ?_ h.copies
      · intro n' r left hc
        cases hc
      · intro c hc
        cases hc
    · cases hs
  | reader t => exact h.readerStep rfl hcond hs

theorem radioOk_boot (status : StatusField → Int) : RadioOk fields (.boot status) where
  counted := rfl
  reads t n r left ht := by cases ht
  leaving t c ht := by cases ht
  copies c hc := by cases hc

/-- Where every store is inside a publication as far as readers can see, each copy that is
accepted is the status between two updates. -/
theorem status_copies_consistent (h : (radioMachine fields).ReachableIf Guarded s) :
    ∀ c ∈ s.copies, CopyOk fields c := by
  have hok : RadioOk fields s := by
    refine h.invariant (RadioOk fields) ?_ fun _ _ _ hok hcond hs => hok.step hcond hs
    rintro s ⟨status, rfl⟩
    exact radioOk_boot status
  exact hok.copies

/-- A scan result arrives inside `cyw43_poll` while a reader is between the two fields it
stores. -/
def scanTrace : List RadioEvent :=
  [.start ⟨0, none, none, none, 0⟩, .owner, .owner, .owner, .owner, .owner,
    .getStatus 0 fun _ => 0, .reader 0, .reader 0, .callback (.scanResult (some (-40))), .owner,
    .owner, .reader 0, .reader 0, .reader 0]

/-- The copy has the signal of the first result and the count before it, which the status never
had together. -/
theorem status_copy_torn :
    let status : StatusField → Int := fun f => if f = strongestRssi then -32768 else 0
    let run : List RadioEvent → Option RadioSys :=
      (radioMachine [scanCount, strongestRssi]).exec (fun _ _ => true) (.boot status)
    (∃ s, run scanTrace = some s ∧ ∃ c ∈ s.copies, c.exhausted = false ∧ c.dest scanCount = 0 ∧
      c.dest strongestRssi = -40) ∧
    ∀ n ≤ scanTrace.length, ∀ s, run (scanTrace.take n) = some s →
      ¬ (s.lock.mem scanCount = 0 ∧ s.lock.mem strongestRssi = -40) := by
  intro status run
  constructor
  · have hrun : (run scanTrace).any (fun s => s.copies.any fun c => c.exhausted = false ∧
        c.dest scanCount = 0 ∧ c.dest strongestRssi = -40) = true := by decide
    obtain ⟨s, hs, hc⟩ := (Option.any_eq_true ..).1 hrun
    obtain ⟨c, hmem, hc⟩ := List.any_eq_true.1 hc
    exact ⟨s, hs, c, hmem, of_decide_eq_true hc⟩
  · have hall : ∀ n ≤ scanTrace.length, (run (scanTrace.take n)).all (fun s =>
        ¬ (s.lock.mem scanCount = 0 ∧ s.lock.mem strongestRssi = -40)) = true := by decide
    intro n hn s hs
    have := hall n hn
    rw [hs] at this
    exact of_decide_eq_true this

/-- A reader meets a publication, tries again and gets what was published. -/
theorem status_copies_consistent_run :
    ∃ s : RadioSys, (s.copies.length = 1 ∧ s.retries = 1) ∧
      ∀ c ∈ s.copies, CopyOk [scanActive, other 0] c := by
  let status : StatusField → Int := fun _ => 0
  let p : RadioSys → Bool := fun s => s.copies.length = 1 ∧ s.retries = 1
  obtain ⟨s, reach, hp⟩ := Lts.reachable_of_exec (L := radioMachine [scanActive, other 0]) (p := p)
    (s := .boot status) (fun s e (h : decide (s.Guarded e) = true) => of_decide_eq_true h)
    [.start ⟨0, none, none, none, 0⟩, .owner, .owner, .owner, .owner, .owner,
      .publish [(other 0, 7), (scanActive, 0)], .getStatus 0 status, .reader 0, .reader 0, .owner,
      .owner, .reader 0, .owner, .owner, .reader 0, .reader 0, .reader 0, .reader 0, .reader 0,
      .reader 0] ⟨status, rfl⟩ (by decide)
  exact ⟨s, of_decide_eq_true hp, status_copies_consistent reach⟩

end RadioSys

end Mtk3Smp
