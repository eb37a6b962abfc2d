import Linkeye.Core.Dpos
import Linkeye.Core.Transaction
import Linkeye.Lib.Totals

/-!
# Staking messages

`applyDposMessage` of `core/state_processor.go` with the balances and logs it
writes.  A candidate pays `MinCandidateBalance` at its first login and gets it
back when it withdraws.
-/

set_option autoImplicit false

namespace Linkeye.Core.StateProcessor

open Common.Types Common.Signature Dpos Transaction Lib.Totals Rlp.Encode Trie.Contents

structure Log where
  address : Address
  topics : List Hash
  data : Bytes
  blockNumber : UInt64

/-- Balances and logs of the state database; an account without an entry has
balance zero. -/
structure StateDB where
  balances : Std.ExtTreeMap Address Int
  logs : List Log

namespace StateDB

def getBalance (statedb : StateDB) (addr : Address) : Int := statedb.balances.getD addr 0

def setBalance (statedb : StateDB) (addr : Address) (amount : Int) : StateDB :=
  { statedb with balances := statedb.balances.insert addr amount }

def addBalance (statedb : StateDB) (addr : Address) (amount : Int) : StateDB :=
  statedb.setBalance addr (statedb.getBalance addr + amount)

def subBalance (statedb : StateDB) (addr : Address) (amount : Int) : StateDB :=
  statedb.setBalance addr (statedb.getBalance addr - amount)

def addLog (statedb : StateDB) (log : Log) : StateDB :=
  { statedb with logs := statedb.logs ++ [log] }

end StateDB

/-- The fields of `types.Message` that staking reads. -/
structure Message where
  txType : TxType
  sender : Address
  recipient : Option Address

/-- 100 LET; the source holds it as a `big.Float`, exact at this value. -/
def minCandidateBalance : Int := 10 ^ 20

def unlockInterval : Int := 10

def asciiBytes (text : String) : Bytes := text.toList.map fun c => UInt8.ofNat c.toNat

/-- `addDposLog`; every text ends with the address of the sender. -/
def addDposLog (crypto : Crypto) (statedb : StateDB) (addr : Address) (topics text : String)
    (number : Nat) : StateDB :=
  statedb.addLog
    { address := addr
      topics := [crypto.keccak256 (asciiBytes topics)]
      data := asciiBytes text ++ addressString crypto.keccak256 addr
      blockNumber := UInt64.ofNat number }

/-- How `applyDposMessage` ends: `nil`, `ErrInvalidType`, or the dereference of a
nil recipient. -/
inductive Outcome where
  | applied
  | errInvalidType
  | nilRecipient
deriving DecidableEq

def loginCandidate (crypto : Crypto) (dc : DposContext) (sender : Address) (statedb : StateDB)
    (number : Nat) : DposContext × StateDB :=
  match dc.getCandidateContext sender with
  | .error _ =>
    (dc, addDposLog crypto statedb sender "LoginCandidate" "failed to GetCandidateContext" number)
  | .ok cc =>
    if cc.state = .logoutState then
      ((dc.setCandidateContext ⟨sender, .loginState, number, cc.score⟩).1, statedb)
    else if cc.state = .loginState ∧ cc.addr = sender then
      (dc, addDposLog crypto statedb sender "RepeatLoginCandidate"
        "You are already in login state before, " number)
    -- first login
    else if statedb.getBalance sender < minCandidateBalance then
      (dc, addDposLog crypto statedb sender "InsufficientBalance"
        "insufficient balance to become candidate, " number)
    else
      ((dc.setCandidateContext ⟨sender, .loginState, number, 0⟩).1,
        statedb.subBalance sender minCandidateBalance)

def logoutCandidate (crypto : Crypto) (dc : DposContext) (sender : Address) (statedb : StateDB)
    (number : Nat) : DposContext × StateDB :=
  match dc.getCandidateContext sender with
  | .error _ =>
    (dc, addDposLog crypto statedb sender "LogoutCandidate" "failed to GetCandidateContext" number)
  | .ok cc =>
    if cc.state = .loginState ∧ cc.addr = sender then
      ((dc.setCandidateContext ⟨sender, .logoutState, number, cc.score⟩).1, statedb)
    else if cc.state = .logoutState then
      (dc, addDposLog crypto statedb sender "RepeatLogoutCandidate"
        "You are already in logout state before, " number)
    else (dc, addDposLog crypto statedb sender "NoLogin" "please first call login, " number)

def withdrawCandidate (crypto : Crypto) (dc : DposContext) (sender : Address) (statedb : StateDB)
    (number : Nat) : DposContext × StateDB :=
  match dc.getCandidateContext sender with
  | .error _ =>
    (dc, addDposLog crypto statedb sender "WithdrawCandidate" "failed to GetCandidateContext"
      number)
  | .ok cc =>
    if cc.state = .logoutState then
      if cc.blockNumber + unlockInterval < number then
        (dc.kickoutCandidate sender, statedb.addBalance sender minCandidateBalance)
      else
        (dc, addDposLog crypto statedb sender "Locking" "please wait, unlock time isn't arrive, "
          number)
    else (dc, addDposLog crypto statedb sender "NoLogout" "please first call logout, " number)

/-- `number` is `header.Number`, all that is read of the header. -/
def applyDposMessage (crypto : Crypto) (dc : DposContext) (msg : Message) (statedb : StateDB)
    (number : Nat) : DposContext × StateDB × Outcome :=
  match msg.txType, msg.recipient with
  | .loginCandidate, _ =>
    let after := loginCandidate crypto dc msg.sender statedb number
    (after.1, after.2, .applied)
  | .logoutCandidate, _ =>
    let after := logoutCandidate crypto dc msg.sender statedb number
    (after.1, after.2, .applied)
  | .withdrawCandidate, _ =>
    let after := withdrawCandidate crypto dc msg.sender statedb number
    (after.1, after.2, .applied)
  | .delegate, some recipient =>
    ((dc.delegate msg.sender recipient number (statedb.getBalance msg.sender)).1, statedb,
      .applied)
  | .unDelegate, some recipient => ((dc.unDelegate msg.sender recipient).1, statedb, .applied)
  | .delegate, none => (dc, statedb, .nilRecipient)
  | .unDelegate, none => (dc, statedb, .nilRecipient)
  | .binary, _ => (dc, statedb, .errInvalidType)
  | .other _, _ => (dc, statedb, .errInvalidType)

/-! ## What a message does -/

section
variable (crypto : Crypto) (dc : DposContext) (statedb : StateDB) (number : Nat)

/-- The messages that are refused, some of them with a log. -/
def Refused (msg : Message) : Prop :=
  match msg.txType with
  | .loginCandidate => ∀ cc, dc.getCandidateContext msg.sender = .ok cc →
      cc.state ≠ .logoutState ∧ (cc.state = .loginState ∧ cc.addr = msg.sender ∨
        statedb.getBalance msg.sender < minCandidateBalance)
  | .logoutCandidate => ∀ cc, dc.getCandidateContext msg.sender = .ok cc →
      ¬ (cc.state = .loginState ∧ cc.addr = msg.sender)
  | .withdrawCandidate => ∀ cc, dc.getCandidateContext msg.sender = .ok cc →
      ¬ (cc.state = .logoutState ∧ cc.blockNumber + unlockInterval < number)
  | .delegate | .unDelegate => msg.recipient = none
  | .binary | .other _ => True

/-- The context and the state after a message: a constructor for each branch of
`applyDposMessage` that writes. -/
inductive Effect (msg : Message) : DposContext → StateDB → Prop where
  | refused {after : StateDB} (refused : Refused dc statedb number msg)
      (same : after.balances = statedb.balances) : Effect msg dc after
  | relogin (cc : CandidateContext) (kind : msg.txType = .loginCandidate)
      (found : dc.getCandidateContext msg.sender = .ok cc) (logout : cc.state = .logoutState) :
      Effect msg (dc.setCandidateContext ⟨msg.sender, .loginState, number, cc.score⟩).1 statedb
  | deposit (cc : CandidateContext) (kind : msg.txType = .loginCandidate)
      (found : dc.getCandidateContext msg.sender = .ok cc) (notLogout : cc.state ≠ .logoutState)
      (notLogin : ¬ (cc.state = .loginState ∧ cc.addr = msg.sender))
      (enough : minCandidateBalance ≤ statedb.getBalance msg.sender) :
      Effect msg (dc.setCandidateContext ⟨msg.sender, .loginState, number, 0⟩).1
        (statedb.subBalance msg.sender minCandidateBalance)
  | logout (cc : CandidateContext) (kind : msg.txType = .logoutCandidate)
      (found : dc.getCandidateContext msg.sender = .ok cc)
      (login : cc.state = .loginState ∧ cc.addr = msg.sender) :
      Effect msg (dc.setCandidateContext ⟨msg.sender, .logoutState, number, cc.score⟩).1 statedb
  | withdraw (cc : CandidateContext) (kind : msg.txType = .withdrawCandidate)
      (found : dc.getCandidateContext msg.sender = .ok cc) (logout : cc.state = .logoutState)
      (elapsed : cc.blockNumber + unlockInterval < number) :
      Effect msg (dc.kickoutCandidate msg.sender)
        (statedb.addBalance msg.sender minCandidateBalance)
  | delegate (recipient : Address) (kind : msg.txType = .delegate)
      (receiver : msg.recipient = some recipient) :
      Effect msg (dc.delegate msg.sender recipient number (statedb.getBalance msg.sender)).1 statedb
  | unDelegate (recipient : Address) (kind : msg.txType = .unDelegate)
      (receiver : msg.recipient = some recipient) :
      Effect msg (dc.unDelegate msg.sender recipient).1 statedb

theorem applyDposMessage_effect (msg : Message) :
    Effect dc statedb number msg (applyDposMessage crypto dc msg statedb number).1
      (applyDposMessage crypto dc msg statedb number).2.1 := by
  cases kind : msg.txType with
  | loginCandidate =>
    simp only [applyDposMessage, kind, loginCandidate]
    cases found : dc.getCandidateContext msg.sender with
    | error e => exact .refused (by simp [Refused, kind, found]) rfl
    | ok cc =>
      dsimp only
      split_ifs with logout login poor
      · exact .relogin cc kind found logout
      · exact .refused (by simp [Refused, kind, found, login]) rfl
      · exact .refused (by simp [Refused, kind, found, logout, poor]) rfl
      · exact .deposit cc kind found logout login (not_lt.mp poor)
  | logoutCandidate =>
    simp only [applyDposMessage, kind, logoutCandidate]
    cases found : dc.getCandidateContext msg.sender with
    | error e => exact .refused (by simp [Refused, kind, found]) rfl
    | ok cc =>
      dsimp only
      split_ifs with login logout
      · exact .logout cc kind found login
      · exact .refused (by simp [Refused, kind, found, logout]) rfl
      · exact .refused (by simpa [Refused, kind, found] using login) rfl
  | withdrawCandidate =>
    simp only [applyDposMessage, kind, withdrawCandidate]
    cases found : dc.getCandidateContext msg.sender with
    | error e => exact .refused (by simp [Refused, kind, found]) rfl
    | ok cc =>
      dsimp only
      split_ifs with logout elapsed
      · exact .withdraw cc kind found logout elapsed
      · exact .refused (by simp [Refused, kind, found, not_lt.mp elapsed]) rfl
      · exact .refused (by simp [Refused, kind, found, logout]) rfl
  | delegate =>
    cases receiver : msg.recipient with
    | none =>
      simp only [applyDposMessage, kind, receiver]
      exact .refused (by simp [Refused, kind, receiver]) rfl
    | some recipient =>
      simp only [applyDposMessage, kind, receiver]
      exact .delegate recipient kind receiver
  | unDelegate =>
    cases receiver : msg.recipient with
    | none =>
      simp only [applyDposMessage, kind, receiver]
      exact .refused (by simp [Refused, kind, receiver]) rfl
    | some recipient =>
      simp only [applyDposMessage, kind, receiver]
      exact .unDelegate recipient kind receiver
  | binary | other =>
    simp only [applyDposMessage, kind]
    exact .refused (by simp [Refused, kind]) rfl

/-- Every message writes candidate records, or kicks its sender out, or makes
one of the two delegation calls. -/
inductive ContextChange (msg : Message) : DposContext → Prop where
  | candidates {after : DposContext} (only : DposContext.OnlyCandidates dc after) :
      ContextChange msg after
  | kickout : ContextChange msg (dc.kickoutCandidate msg.sender)
  | delegate (recipient : Address) (kind : msg.txType = .delegate)
      (receiver : msg.recipient = some recipient) :
      ContextChange msg
        (dc.delegate msg.sender recipient number (statedb.getBalance msg.sender)).1
  | unDelegate (recipient : Address) : ContextChange msg (dc.unDelegate msg.sender recipient).1

theorem applyDposMessage_context (msg : Message) :
    ContextChange dc statedb number msg (applyDposMessage crypto dc msg statedb number).1 := by
  have effect := applyDposMessage_effect crypto dc statedb number msg
  generalize (applyDposMessage crypto dc msg statedb number).1 = after,
    (applyDposMessage crypto dc msg statedb number).2.1 = state at effect ⊢
  cases effect with
  | refused => exact .candidates (DposContext.OnlyCandidates.refl dc)
  | relogin | deposit | logout =>
    exact .candidates (DposContext.setCandidateContext_onlyCandidates dc _)
  | withdraw => exact .kickout
  | delegate recipient kind receiver => exact .delegate recipient kind receiver
  | unDelegate recipient => exact .unDelegate recipient

theorem applyDposMessage_epochTrie (msg : Message) :
    (applyDposMessage crypto dc msg statedb number).1.epochTrie = dc.epochTrie := by
  have change := applyDposMessage_context crypto dc statedb number msg
  generalize (applyDposMessage crypto dc msg statedb number).1 = after at change
  cases change with
  | candidates only => rw [only]
  | kickout => exact (DposContext.kickoutDelegators_keeps _ _ _).2
  | delegate c _ _ => exact (DposContext.delegate_keeps dc _ c _ _).1
  | unDelegate c =>
    rcases DposContext.unDelegate_cases dc msg.sender c with unchanged | effect
    · rw [unchanged]
    · exact effect.epoch

end

/-! ## Coins -/

/-- All balances with the deposits of the candidates. -/
def coins (dc : DposContext) (statedb : StateDB) : Int :=
  total statedb.balances + minCandidateBalance * dc.candidateTrie.size

/-- A stored record of `a` that can be read is a logout record, or a login record
under the address itself. -/
def RegularRecord (dc : DposContext) (a : Address) : Prop :=
  ∀ ccRLP cc, dc.candidateTrie.tryGet a.data = some ccRLP →
    decodeRecord CandidateContext.decodeRLP ccRLP = some cc →
    cc.state = .logoutState ∨ (cc.state = .loginState ∧ cc.addr = a)

/-- A login that takes the deposit of an address which has an entry already. -/
def PaysAgain (dc : DposContext) (msg : Message) (statedb : StateDB) : Prop :=
  msg.txType = .loginCandidate ∧ minCandidateBalance ≤ statedb.getBalance msg.sender ∧
    ¬ RegularRecord dc msg.sender

section
variable (statedb : StateDB)

theorem total_setBalance (addr : Address) (amount : Int) :
    total (statedb.setBalance addr amount).balances =
      total statedb.balances - statedb.getBalance addr + amount :=
  total_insert statedb.balances addr amount

theorem getBalance_setBalance_of_ne {addr other : Address} (different : other ≠ addr)
    (amount : Int) :
    (statedb.setBalance addr amount).getBalance other = statedb.getBalance other := by
  rw [StateDB.getBalance, StateDB.setBalance, Lib.Maps.getD_insert, if_neg different.symm]
  rfl

theorem getBalance_setBalance_self (addr : Address) (amount : Int) :
    (statedb.setBalance addr amount).getBalance addr = amount := by
  rw [StateDB.getBalance, StateDB.setBalance, Std.ExtTreeMap.getD_insert_self]

end

variable {a : Address} {cc : CandidateContext}

section
variable {dc : DposContext}

theorem getCandidateContext_eq_ok (found : dc.getCandidateContext a = .ok cc) :
    (dc.candidateTrie.tryGet a.data = none ∧ cc = CandidateContext.zero) ∨
      ∃ ccRLP, dc.candidateTrie.tryGet a.data = some ccRLP ∧
        decodeRecord CandidateContext.decodeRLP ccRLP = some cc := by
  rw [DposContext.getCandidateContext] at found
  cases stored : dc.candidateTrie.tryGet a.data with
  | none =>
    simp only [stored, Except.ok.injEq] at found
    exact .inl ⟨rfl, found.symm⟩
  | some ccRLP =>
    cases decoded : decodeRecord CandidateContext.decodeRLP ccRLP with
    | none => simp [stored, decoded] at found
    | some record =>
      simp only [stored, decoded, Except.ok.injEq] at found
      exact .inr ⟨ccRLP, rfl, by rw [decoded, found]⟩

theorem stored_of_ne_zero (found : dc.getCandidateContext a = .ok cc)
    (notZero : cc ≠ CandidateContext.zero) :
    ∃ ccRLP, dc.candidateTrie.tryGet a.data = some ccRLP ∧
      decodeRecord CandidateContext.decodeRLP ccRLP = some cc := by
  rcases getCandidateContext_eq_ok found with ⟨_, zero⟩ | stored
  · exact absurd zero notZero
  · exact stored

theorem stored_of_logout (found : dc.getCandidateContext a = .ok cc)
    (logout : cc.state = .logoutState) :
    ∃ ccRLP, dc.candidateTrie.tryGet a.data = some ccRLP := by
  obtain ⟨ccRLP, stored, _⟩ := stored_of_ne_zero found (by rintro rfl; cases logout)
  exact ⟨ccRLP, stored⟩

theorem size_setCandidateContext_of_present {old : Bytes}
    (present : dc.candidateTrie.tryGet cc.addr.data = some old) :
    (dc.setCandidateContext cc).1.candidateTrie.size = dc.candidateTrie.size := by
  rw [DposContext.setCandidateContext]
  cases written : cc.encodeRLP with
  | none => rfl
  | some item => exact TrieMap.size_tryUpdate_of_present (encode_ne_nil item) present

theorem size_setCandidateContext_of_absent {item : Item} (written : cc.encodeRLP = some item)
    (absent : dc.candidateTrie.tryGet cc.addr.data = none) :
    (dc.setCandidateContext cc).1.candidateTrie.size = dc.candidateTrie.size + 1 := by
  rw [DposContext.setCandidateContext, written]
  exact TrieMap.size_tryUpdate_of_absent (encode_ne_nil item) absent

theorem candidateTrie_unDelegate (d c : Address) :
    (dc.unDelegate d c).1.candidateTrie = dc.candidateTrie := by
  rcases DposContext.unDelegate_cases dc d c with unchanged | effect
  · rw [unchanged]
  · exact effect.candidates

end

theorem regularRecord_of_absent {dc : DposContext} (absent : dc.candidateTrie.tryGet a.data = none) :
    RegularRecord dc a := by
  intro ccRLP cc stored
  rw [absent] at stored
  cases stored

theorem regularRecord_of_read {dc : DposContext}
    (read : ∀ cc, dc.getCandidateContext a = .ok cc →
      cc.state = .logoutState ∨ (cc.state = .loginState ∧ cc.addr = a)) : RegularRecord dc a := by
  intro ccRLP cc stored decoded
  apply read
  rw [DposContext.getCandidateContext, stored]
  simp only [decoded]

/-! ## What each message does to the coins -/

section
variable (crypto : Crypto) (dc : DposContext) (sender : Address) (statedb : StateDB) (number : Nat)

def Unmoved (after : DposContext × StateDB) : Prop :=
  after.1.candidateTrie.size = dc.candidateTrie.size ∧ after.2.balances = statedb.balances

theorem Unmoved.coins_eq {dc : DposContext} {statedb : StateDB} {after : DposContext × StateDB}
    (unmoved : Unmoved dc statedb after) : coins after.1 after.2 = coins dc statedb := by
  rw [coins, coins, unmoved.1, unmoved.2]

theorem Unmoved.getBalance_eq {dc : DposContext} {statedb : StateDB}
    {after : DposContext × StateDB} (unmoved : Unmoved dc statedb after) (other : Address) :
    after.2.getBalance other = statedb.getBalance other := by
  rw [StateDB.getBalance, unmoved.2]
  rfl

end

/-- Balances and deposits together stay the same in exactly the messages that
are no second payment for one entry, and only the sender's balance can change. -/
theorem applyDposMessage_conserves_coins (crypto : Crypto) (dc : DposContext) (msg : Message)
    (statedb : StateDB) (number : Nat) (nonzero : msg.sender ≠ zeroAddress) :
    let after := applyDposMessage crypto dc msg statedb number
    (coins after.1 after.2.1 = coins dc statedb ↔ ¬ PaysAgain dc msg statedb) ∧
      ∀ other, other ≠ msg.sender → after.2.1.getBalance other = statedb.getBalance other := by
  have positive : (0 : Int) < minCandidateBalance := by norm_num [minCandidateBalance]
  have effect := applyDposMessage_effect crypto dc statedb number msg
  intro after
  change Effect dc statedb number msg after.1 after.2.1 at effect
  generalize after.1 = context, after.2.1 = state at effect ⊢
  have quiet (size : context.candidateTrie.size = dc.candidateTrie.size)
      (same : state.balances = statedb.balances) (notAgain : ¬ PaysAgain dc msg statedb) :
      (coins context state = coins dc statedb ↔ ¬ PaysAgain dc msg statedb) ∧
        ∀ other, other ≠ msg.sender → state.getBalance other = statedb.getBalance other := by
    have unmoved : Unmoved dc statedb (context, state) := ⟨size, same⟩
    exact ⟨iff_of_true unmoved.coins_eq notAgain, fun other _ => unmoved.getBalance_eq other⟩
  have unpaid (kind : msg.txType ≠ .loginCandidate) : ¬ PaysAgain dc msg statedb :=
    fun pays => kind pays.1
  cases effect with
  | refused refused same =>
    refine quiet rfl same ?_
    rintro ⟨kind, enough, irregular⟩
    simp only [Refused, kind] at refused
    refine irregular (regularRecord_of_read fun cc found => ?_)
    exact .inr ((refused cc found).2.resolve_right (not_lt.mpr enough))
  | relogin cc kind found logout =>
    obtain ⟨ccRLP, stored⟩ := stored_of_logout found logout
    refine quiet (size_setCandidateContext_of_present stored) rfl ?_
    rintro ⟨_, _, irregular⟩
    refine irregular (regularRecord_of_read fun other read => .inl ?_)
    cases found.symm.trans read
    exact logout
  | deposit cc kind found notLogout notLogin enough =>
    refine ⟨?_, fun other different => getBalance_setBalance_of_ne statedb different _⟩
    rw [coins, coins, StateDB.subBalance, total_setBalance]
    rcases getCandidateContext_eq_ok found with ⟨absent, _⟩ | ⟨ccRLP, stored, decoded⟩
    · refine iff_of_true ?_ (fun pays => pays.2.2 (regularRecord_of_absent absent))
      have size : (dc.setCandidateContext ⟨msg.sender, .loginState, number, 0⟩).1.candidateTrie.size
          = dc.candidateTrie.size + 1 :=
        size_setCandidateContext_of_absent (CandidateContext.encodeRLP_natCast _ _ number 0) absent
      rw [size]
      push_cast
      ring
    · rw [size_setCandidateContext_of_present stored]
      refine iff_of_false (by omega) (not_not.mpr ⟨kind, enough, fun regular => ?_⟩)
      rcases regular ccRLP cc stored decoded with logout | login
      · exact notLogout logout
      · exact notLogin login
  | logout cc kind found login =>
    -- a missing record reads as a login of the zero address
    have notZero : cc ≠ CandidateContext.zero := by
      rintro rfl
      exact nonzero login.2.symm
    obtain ⟨ccRLP, stored, _⟩ := stored_of_ne_zero found notZero
    exact quiet (size_setCandidateContext_of_present stored) rfl (unpaid (by simp [kind]))
  | withdraw cc kind found logout =>
    obtain ⟨ccRLP, stored⟩ := stored_of_logout found logout
    refine ⟨iff_of_true ?_ (unpaid (by simp [kind])),
      fun other different => getBalance_setBalance_of_ne statedb different _⟩
    rw [coins, coins, StateDB.addBalance, total_setBalance, DposContext.kickoutCandidate,
      (DposContext.kickoutDelegators_keeps _ _ _).1, ← TrieMap.size_tryDelete_of_present stored]
    push_cast
    ring
  | delegate recipient kind =>
    exact quiet (by rw [(DposContext.delegate_keeps dc _ _ _ _).2]) rfl (unpaid (by simp [kind]))
  | unDelegate recipient kind =>
    exact quiet (by rw [candidateTrie_unDelegate]) rfl (unpaid (by simp [kind]))

def firstLogin : Message := ⟨.loginCandidate, bytesToAddress [1], none⟩

def richState : StateDB := ⟨(∅ : Std.ExtTreeMap Address Int).insert (bytesToAddress [1])
  (minCandidateBalance + 5), []⟩

theorem applyDposMessage_conserves_firstLogin :
    let after := applyDposMessage plainCrypto newDposContext firstLogin richState 7
    coins after.1 after.2.1 = coins newDposContext richState ∧
      ∀ other, other ≠ bytesToAddress [1] →
        after.2.1.getBalance other = richState.getBalance other := by
  have nonzero : firstLogin.sender ≠ zeroAddress := by decide
  have conserved :=
    applyDposMessage_conserves_coins plainCrypto newDposContext firstLogin richState 7 nonzero
  have absent : newDposContext.candidateTrie.tryGet firstLogin.sender.data = none :=
    TrieMap.tryGet_empty _
  have once : ¬ PaysAgain newDposContext firstLogin richState :=
    fun pays => pays.2.2 (regularRecord_of_absent absent)
  exact ⟨conserved.1.mpr once, conserved.2⟩

def withdrawingContext : DposContext :=
  (newDposContext.setCandidateContext ⟨bytesToAddress [1], .withdrawingState, 1, 0⟩).1

theorem login_pays_for_entry_again :
    let after := applyDposMessage plainCrypto withdrawingContext firstLogin richState 7
    firstLogin.sender ≠ zeroAddress ∧ after.2.2 = .applied ∧
      coins after.1 after.2.1 = coins withdrawingContext richState - minCandidateBalance ∧
      coins after.1 after.2.1 ≠ coins withdrawingContext richState := by
  decide +kernel

end Linkeye.Core.StateProcessor
