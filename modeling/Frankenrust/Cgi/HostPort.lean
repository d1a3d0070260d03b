import Frankenrust.Cgi.SplitPath

/-! Hosts with ports, `split_host_port` of `cgi.rs`, and the server and client
addresses taken from them. -/
namespace Frankenrust.Cgi

inductive Scheme
  | http
  | https
  deriving DecidableEq

def colonByte : UInt8 := 0x3a
def openBracket : UInt8 := 0x5b
def closeBracket : UInt8 := 0x5d

def rposition (wanted : UInt8) : Bytes → Option Nat
  | [] => none
  | byte :: rest =>
    match rposition wanted rest with
    | some index => some (index + 1)
    | none => if byte = wanted then some 0 else none

def splitAfterHost (hostPort host : Bytes) (openingBracketOffset closingBracketOffset colon : Nat) :
    Option (Option (Bytes × Bytes)) := do
  if (← slice hostPort openingBracketOffset hostPort.length).contains openBracket ||
      (← slice hostPort closingBracketOffset hostPort.length).contains closeBracket then return none
  return some (host,← slice hostPort (colon + 1) hostPort.length)

/-- The outer option fails where a slice would leave the string, the inner one where
the source answers `None`. -/
def splitHostPort (hostPort : Bytes) : Option (Option (Bytes × Bytes)) :=
  match rposition colonByte hostPort with
  | none => some none
  | some colon =>
    if hostPort.head? = some openBracket then
      match hostPort.findIdx? (· == closeBracket) with
      | none => some none
      | some closingBracket =>
        if closingBracket + 1 = hostPort.length then some none
        else if closingBracket + 1 = colon then do
          splitAfterHost hostPort (← slice hostPort 1 closingBracket) 1 (closingBracket + 1) colon
        else some none
    else do
      let host ← slice hostPort 0 colon
      if host.contains colonByte then return none
      splitAfterHost hostPort host 0 0 colon

def stripBrackets (ip : Bytes) : Option Bytes :=
  if ip.length ≥ 2 ∧ ip.head? = some openBracket ∧ ip.getLast? = some closeBracket then
    slice ip 1 (ip.length - 1)
  else some ip

def splitRemoteAddr (remoteAddr : Bytes) : Option (Bytes × Bytes) := do
  if let some (host,port) ← splitHostPort remoteAddr then return (host,port)
  let (ip,port) ← match rposition colonByte remoteAddr with
    | some colon => do pure (← slice remoteAddr 0 colon,← slice remoteAddr (colon + 1) remoteAddr.length)
    | none => pure (remoteAddr,[])
  return (← stripBrackets ip,port)

def deriveServerNameAndPort (host : Bytes) (scheme : Scheme) : Option (Bytes × Bytes) := do
  let parsed ← splitHostPort host
  let serverName := match parsed with
    | some (name,_) => if name ≠ [] then name else host
    | none => host
  let standard := match scheme with
    | .http => ascii "80"
    | .https => ascii "443"
  let serverPort := match parsed with
    | some (_,port) => if port ≠ [] then port else standard
    | none => standard
  return (serverName,serverPort)

theorem rposition_lt {wanted : UInt8} {bytes : Bytes} {index : Nat} (found : rposition wanted bytes = some index) :
    index < bytes.length := by
  induction bytes generalizing index with
  | nil => cases found
  | cons byte rest ih =>
    rw [rposition] at found
    split at found
    next later => cases found; exact Nat.succ_lt_succ (ih later)
    next =>
      split at found
      · cases found; exact Nat.zero_lt_succ _
      · cases found

theorem slice_total {bytes : Bytes} {start stop : Nat} (ordered : start ≤ stop) (inside : stop ≤ bytes.length) :
    ∃ piece, slice bytes start stop = some piece := ⟨_,slice_eq ordered inside⟩

theorem splitAfterHost_total (hostPort host : Bytes) {opening closing colon : Nat} (first : opening ≤ hostPort.length)
    (second : closing ≤ hostPort.length) (third : colon < hostPort.length) :
    ∃ answer, splitAfterHost hostPort host opening closing colon = some answer := by
  obtain ⟨front,front_eq⟩ := slice_total first (Nat.le_refl _)
  obtain ⟨back,back_eq⟩ := slice_total second (Nat.le_refl _)
  obtain ⟨port,port_eq⟩ := slice_total third (Nat.le_refl _)
  rw [splitAfterHost,front_eq,back_eq,port_eq]
  simp only [Option.bind_eq_bind,Option.bind_some]
  split <;> exact ⟨_,rfl⟩

/-- No slice of `split_host_port` leaves its string. -/
theorem splitHostPort_total (hostPort : Bytes) : ∃ answer, splitHostPort hostPort = some answer := by
  unfold splitHostPort
  split
  next => exact ⟨_,rfl⟩
  next colon found =>
    have inside := rposition_lt found
    split
    next bracketed =>
      split
      next => exact ⟨_,rfl⟩
      next closing located =>
        obtain ⟨bound,closes,_⟩ := List.findIdx?_eq_some_iff_getElem.mp located
        -- the first byte is the opening bracket, so the closing one stands after it
        have after : 1 ≤ closing := by
          rcases Nat.eq_zero_or_pos closing with rfl | later
          · rw [List.head?_eq_getElem?,List.getElem?_eq_getElem bound,Option.some.injEq] at bracketed
            rw [bracketed] at closes
            contradiction
          · exact later
        split
        next => exact ⟨_,rfl⟩
        next =>
          split
          next =>
            obtain ⟨host,cut⟩ := slice_total after (Nat.le_of_lt bound)
            rw [cut]
            exact splitAfterHost_total hostPort host (by omega) (by omega) inside
          next => exact ⟨_,rfl⟩
    next =>
      obtain ⟨host,cut⟩ := slice_total (Nat.zero_le colon) (Nat.le_of_lt inside)
      simp only [cut,Option.bind_eq_bind,Option.bind_some]
      split
      · exact ⟨_,rfl⟩
      · exact splitAfterHost_total hostPort host (Nat.zero_le _) (Nat.zero_le _) inside

theorem stripBrackets_total (ip : Bytes) : ∃ answer, stripBrackets ip = some answer := by
  unfold stripBrackets
  split
  next wide => exact slice_total (by omega) (by omega)
  next => exact ⟨_,rfl⟩

/-- Nor does one of `split_remote_addr`, whatever the network layer reported. -/
theorem splitRemoteAddr_total (remoteAddr : Bytes) : ∃ answer, splitRemoteAddr remoteAddr = some answer := by
  obtain ⟨parsed,split⟩ := splitHostPort_total remoteAddr
  rw [splitRemoteAddr,split]
  cases parsed with
  | some pair => exact ⟨pair,rfl⟩
  | none =>
    simp only [Option.bind_eq_bind,Option.bind_some]
    cases found : rposition colonByte remoteAddr with
    | none =>
      obtain ⟨ip,stripped⟩ := stripBrackets_total remoteAddr
      exact ⟨(ip,[]),by simp [stripped]⟩
    | some colon =>
      have inside := rposition_lt found
      obtain ⟨front,front_eq⟩ := slice_total (Nat.zero_le colon) (Nat.le_of_lt inside)
      obtain ⟨port,port_eq⟩ := slice_total (Nat.succ_le_of_lt inside) (Nat.le_refl _)
      obtain ⟨ip,stripped⟩ := stripBrackets_total front
      exact ⟨(ip,port),by simp [front_eq,port_eq,stripped]⟩

theorem deriveServerNameAndPort_total (host : Bytes) (scheme : Scheme) :
    ∃ answer, deriveServerNameAndPort host scheme = some answer := by
  obtain ⟨parsed,split⟩ := splitHostPort_total host
  simp [deriveServerNameAndPort,split]

end Frankenrust.Cgi
