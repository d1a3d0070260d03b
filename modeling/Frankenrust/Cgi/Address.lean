import Frankenrust.Cgi.HostPort

/-! The forms of an address: which strings `split_host_port` takes apart, and what
`split_remote_addr` makes of the others. -/
namespace Frankenrust.Cgi

/-- A host and a port, with brackets around the host or without. -/
inductive HostPort (host port : Bytes) : Bytes → Prop
  | plain (free : ∀ byte ∈ host ++ port, byte ≠ colonByte ∧ byte ≠ openBracket ∧ byte ≠ closeBracket) :
    HostPort host port (host ++ colonByte :: port)
  | bracketed (inside : ∀ byte ∈ host, byte ≠ openBracket ∧ byte ≠ closeBracket)
    (free : ∀ byte ∈ port, byte ≠ colonByte ∧ byte ≠ openBracket ∧ byte ≠ closeBracket) :
    HostPort host port (openBracket :: host ++ closeBracket :: colonByte :: port)

theorem rposition_none {wanted : UInt8} {bytes : Bytes} (absent : rposition wanted bytes = none) : wanted ∉ bytes := by
  induction bytes with
  | nil => simp
  | cons byte rest ih =>
    rw [rposition] at absent
    cases found : rposition wanted rest with
    | some index => simp [found] at absent
    | none =>
      simp only [found,ite_eq_right_iff,reduceCtorEq,imp_false] at absent
      simp [ih found,Ne.symm absent]

theorem rposition_absent {wanted : UInt8} {bytes : Bytes} (absent : wanted ∉ bytes) : rposition wanted bytes = none := by
  induction bytes with
  | nil => rfl
  | cons byte rest ih =>
    simp only [List.mem_cons,not_or] at absent
    simp [rposition,ih absent.2,Ne.symm absent.1]

theorem rposition_append {wanted : UInt8} (front back : Bytes) (last : wanted ∉ back) :
    rposition wanted (front ++ wanted :: back) = some front.length := by
  induction front with
  | nil => simp [rposition,rposition_absent last]
  | cons byte front ih => simp [rposition,ih]

theorem rposition_some {wanted : UInt8} {bytes : Bytes} {index : Nat} (found : rposition wanted bytes = some index) :
    ∃ front back, bytes = front ++ wanted :: back ∧ index = front.length ∧ wanted ∉ back := by
  induction bytes generalizing index with
  | nil => contradiction
  | cons byte rest ih =>
    rw [rposition] at found
    split at found
    next later at_later =>
      cases found
      obtain ⟨front,back,rfl,rfl,last⟩ := ih at_later
      exact ⟨byte :: front,back,rfl,rfl,last⟩
    next absent =>
      split at found
      next here =>
        cases found
        exact ⟨[],rest,by rw [here]; rfl,rfl,rposition_none absent⟩
      next => contradiction

theorem findIdx?_first {wanted : UInt8} (front back : Bytes) (before : wanted ∉ front) :
    (front ++ wanted :: back).findIdx? (· == wanted) = some front.length := by
  induction front with
  | nil => simp [List.findIdx?_cons]
  | cons byte front ih =>
    simp only [List.mem_cons,not_or] at before
    simp [List.findIdx?_cons,Ne.symm before.1,ih before.2]

theorem splitAfterHost_eq (hostPort host : Bytes) {opening closing colon : Nat} (first : opening ≤ hostPort.length)
    (second : closing ≤ hostPort.length) (third : colon < hostPort.length) :
    splitAfterHost hostPort host opening closing colon = some
      (if (hostPort.drop opening).contains openBracket || (hostPort.drop closing).contains closeBracket then none
      else some (host,hostPort.drop (colon + 1))) := by
  have front : slice hostPort opening hostPort.length = some (hostPort.drop opening) := by
    rw [slice_eq first (Nat.le_refl _),List.take_of_length_le (by simp)]
  have back : slice hostPort closing hostPort.length = some (hostPort.drop closing) := by
    rw [slice_eq second (Nat.le_refl _),List.take_of_length_le (by simp)]
  have port : slice hostPort (colon + 1) hostPort.length = some (hostPort.drop (colon + 1)) := by
    rw [slice_eq third (Nat.le_refl _),List.take_of_length_le (by simp)]
  rw [splitAfterHost,front,back,port]
  simp only [Option.bind_eq_bind,Option.bind_some]
  split <;> rfl

theorem drop_after (front : Bytes) (byte : UInt8) (back : Bytes) :
    (front ++ byte :: back).drop (front.length + 1) = back := by
  rw [← List.drop_drop,List.drop_left]
  rfl

/-- Without a bracket in front: everything before the last colon is the host. -/
theorem splitHostPort_plain (host port : Bytes) (last : colonByte ∉ port) (unbracketed : host.head? ≠ some openBracket) :
    splitHostPort (host ++ colonByte :: port) = some
      (if host.contains colonByte || (host ++ colonByte :: port).contains openBracket ||
        (host ++ colonByte :: port).contains closeBracket then none else some (host,port)) := by
  have first : (host ++ colonByte :: port).head? ≠ some openBracket := by
    cases host with
    | nil => simp [colonByte,openBracket]
    | cons byte host => simpa using unbracketed
  have cut : slice (host ++ colonByte :: port) 0 host.length = some host := by
    rw [slice_eq (Nat.zero_le _) (by simp)]
    simp
  have after := splitAfterHost_eq (host ++ colonByte :: port) host (Nat.zero_le _) (Nat.zero_le _)
    (show host.length < (host ++ colonByte :: port).length by simp)
  have rest : (host ++ colonByte :: port).drop (host.length + 1) = port := drop_after host colonByte port
  rw [splitHostPort,rposition_append host port last]
  simp only [if_neg first,cut,Option.bind_eq_bind,Option.bind_some,after,rest,List.drop_zero]
  cases host.contains colonByte <;> simp

/-- The last colon stands right behind a closing bracket where the port follows it. -/
theorem colon_follows {host rest front back : Bytes} (last : colonByte ∉ back)
    (same : openBracket :: host ++ closeBracket :: rest = front ++ colonByte :: back) :
    host.length + 1 + 1 = front.length ↔ rest.head? = some colonByte ∧ colonByte ∉ rest.tail := by
  have after : (openBracket :: host ++ closeBracket :: rest).drop (host.length + 1 + 1) = rest :=
    drop_after (openBracket :: host) closeBracket rest
  constructor
  · intro here
    have tail : rest = colonByte :: back := by rw [← after,here,same,List.drop_left]
    simp [tail,last]
  · rintro ⟨first,later⟩
    obtain ⟨port,rfl⟩ := List.head?_eq_some_iff.mp first
    have shape : openBracket :: host ++ closeBracket :: colonByte :: port =
        openBracket :: host ++ [closeBracket] ++ colonByte :: port := by simp
    have there := rposition_append front back last
    have again := rposition_append (openBracket :: host ++ [closeBracket]) port later
    rw [← same,shape,again,Option.some.injEq] at there
    simpa using there

/-- Brackets and a port behind them: the host and the port are free of further brackets. -/
theorem splitHostPort_closed (host port : Bytes) (closes : closeBracket ∉ host) (single : colonByte ∉ port) :
    splitHostPort (openBracket :: host ++ closeBracket :: colonByte :: port) = some
      (if openBracket ∉ host ∧ openBracket ∉ port ∧ closeBracket ∉ port then some (host,port) else none) := by
  have located : (openBracket :: host ++ closeBracket :: colonByte :: port).findIdx? (· == closeBracket) =
      some (host.length + 1) :=
    findIdx?_first (openBracket :: host) (colonByte :: port)
      (List.not_mem_cons_of_ne_of_not_mem (by decide) closes)
  have shape : openBracket :: host ++ closeBracket :: colonByte :: port =
      openBracket :: host ++ [closeBracket] ++ colonByte :: port := by simp
  have found : rposition colonByte (openBracket :: host ++ closeBracket :: colonByte :: port) =
      some (host.length + 1 + 1) := by
    rw [shape,rposition_append _ port single]
    simp
  have size : (openBracket :: host ++ closeBracket :: colonByte :: port).length = host.length + 1 + 1 + 1 + port.length := by
    simp
    omega
  have begins : (openBracket :: host ++ closeBracket :: colonByte :: port).head? = some openBracket := rfl
  have inner : host.length + 1 + 1 ≠ (openBracket :: host ++ closeBracket :: colonByte :: port).length := by omega
  have cut : slice (openBracket :: host ++ closeBracket :: colonByte :: port) 1 (host.length + 1) = some host := by
    rw [slice_eq (by omega) (by omega)]
    simp
  have behind : (openBracket :: host ++ closeBracket :: colonByte :: port).drop (host.length + 1 + 1) = colonByte :: port :=
    drop_after (openBracket :: host) closeBracket (colonByte :: port)
  have rest : (openBracket :: host ++ closeBracket :: colonByte :: port).drop (host.length + 1 + 1 + 1) = port := by
    rw [← List.drop_drop,behind]
    rfl
  have answer := splitAfterHost_eq (openBracket :: host ++ closeBracket :: colonByte :: port) host
    (show 1 ≤ _ by omega) (show host.length + 1 + 1 ≤ _ by omega) (show host.length + 1 + 1 < _ by omega)
  have distinct : openBracket ≠ closeBracket ∧ openBracket ≠ colonByte ∧ closeBracket ≠ colonByte := by decide
  rw [splitHostPort,found]
  simp only [begins,if_true,located,if_neg inner,cut,Option.bind_eq_bind,Option.bind_some,answer,behind,rest]
  by_cases free : openBracket ∉ host ∧ openBracket ∉ port ∧ closeBracket ∉ port
  · simp [free,distinct]
  · grind

/-- With one: the first closing bracket ends the host, and the last colon has to follow it. -/
theorem splitHostPort_bracketed (host rest : Bytes) (closes : closeBracket ∉ host) :
    splitHostPort (openBracket :: host ++ closeBracket :: rest) = some
      (if rest.head? = some colonByte ∧ colonByte ∉ rest.tail ∧ openBracket ∉ host ++ rest ∧ closeBracket ∉ rest then
        some (host,rest.tail) else none) := by
  by_cases ports : rest.head? = some colonByte ∧ colonByte ∉ rest.tail
  · obtain ⟨first,single⟩ := ports
    obtain ⟨port,rfl⟩ := List.head?_eq_some_iff.mp first
    have distinct : openBracket ≠ colonByte ∧ closeBracket ≠ colonByte := by decide
    rw [splitHostPort_closed host port closes single]
    have single : colonByte ∉ port := single
    simp [single,distinct,and_assoc]
  · have unmatched : ¬(rest.head? = some colonByte ∧ colonByte ∉ rest.tail ∧ openBracket ∉ host ++ rest ∧ closeBracket ∉ rest) :=
      fun all => ports ⟨all.1,all.2.1⟩
    rw [if_neg unmatched]
    cases found : rposition colonByte (openBracket :: host ++ closeBracket :: rest) with
    | none => rw [splitHostPort,found]
    | some colon =>
      obtain ⟨front,back,same,rfl,last⟩ := rposition_some found
      have elsewhere : host.length + 1 + 1 ≠ front.length := fun here => ports ((colon_follows last same).mp here)
      have located : (openBracket :: host ++ closeBracket :: rest).findIdx? (· == closeBracket) = some (host.length + 1) :=
        findIdx?_first (openBracket :: host) rest (List.not_mem_cons_of_ne_of_not_mem (by decide) closes)
      have begins : (openBracket :: host ++ closeBracket :: rest).head? = some openBracket := rfl
      rw [splitHostPort,found]
      simp only [begins,if_true,located,if_neg elsewhere]
      split <;> rfl

theorem splitHostPort_unclosed {rest : Bytes} (closed : closeBracket ∉ rest) :
    splitHostPort (openBracket :: rest) = some none := by
  have absent : (openBracket :: rest).findIdx? (· == closeBracket) = none := by
    rw [List.findIdx?_eq_none_iff]
    intro byte member
    have other : byte ≠ closeBracket := by
      rintro rfl
      exact List.not_mem_cons_of_ne_of_not_mem (by decide) closed member
    simpa using other
  rw [splitHostPort,absent]
  split
  · rfl
  · simp

theorem splitHostPort_some {hostPort host port : Bytes} (parsed : splitHostPort hostPort = some (some (host,port))) :
    HostPort host port hostPort := by
  cases found : rposition colonByte hostPort with
  | none => simp [splitHostPort,found] at parsed
  | some colon =>
    obtain ⟨front,back,rfl,_,last⟩ := rposition_some found
    by_cases bracketed : front.head? = some openBracket
    · obtain ⟨inner,rfl⟩ := List.head?_eq_some_iff.mp bracketed
      by_cases closed : closeBracket ∈ inner ++ colonByte :: back
      · obtain ⟨name,rest,split,closes⟩ := List.eq_append_cons_of_mem closed
        have shape : openBracket :: inner ++ colonByte :: back = openBracket :: name ++ closeBracket :: rest :=
          congrArg (openBracket :: ·) split
        rw [shape,splitHostPort_bracketed name rest closes,Option.some.injEq] at parsed
        split at parsed
        next accepted =>
          obtain ⟨first,single,opens,closing⟩ := accepted
          obtain ⟨port,rfl⟩ := List.head?_eq_some_iff.mp first
          cases parsed
          rw [shape]
          refine .bracketed ?_ ?_
          · intro byte member
            exact ⟨fun same => opens (by simp [← same,member]),fun same => closes (same ▸ member)⟩
          · intro byte member
            have inside : byte ∈ port := member
            exact ⟨fun same => single (same ▸ member),fun same => opens (by simp [← same,inside]),
              fun same => closing (by simp [← same,inside])⟩
        next => contradiction
      · have shape : openBracket :: inner ++ colonByte :: back = openBracket :: (inner ++ colonByte :: back) := rfl
        rw [shape,splitHostPort_unclosed closed] at parsed
        cases parsed
    · rw [splitHostPort_plain front back last bracketed,Option.some.injEq] at parsed
      split at parsed
      next => contradiction
      next accepted =>
        cases parsed
        simp only [Bool.or_eq_true,List.contains_iff_mem,not_or] at accepted
        obtain ⟨⟨single,opens⟩,closes⟩ := accepted
        refine .plain fun byte member => ⟨?_,?_,?_⟩
        · rintro rfl
          exact (List.mem_append.mp member).elim single last
        · rintro rfl
          exact opens (by grind)
        · rintro rfl
          exact closes (by grind)

theorem splitHostPort_of {hostPort host port : Bytes} (form : HostPort host port hostPort) :
    splitHostPort hostPort = some (some (host,port)) := by
  cases form with
  | plain free =>
    have absent {byte : UInt8} (special : byte = colonByte ∨ byte = openBracket ∨ byte = closeBracket) : byte ∉ host ++ port := by
      intro member
      have other := free byte member
      grind
    have single := absent (.inl rfl)
    have opens := absent (.inr (.inl rfl))
    have closes := absent (.inr (.inr rfl))
    simp only [List.mem_append,not_or] at single opens closes
    have unbracketed : host.head? ≠ some openBracket := fun first => opens.1 (List.mem_of_mem_head? first)
    have distinct : openBracket ≠ colonByte ∧ closeBracket ≠ colonByte := by decide
    rw [splitHostPort_plain host port single.2 unbracketed]
    simp [single,opens,closes,distinct]
  | bracketed inside free =>
    have closes : closeBracket ∉ host := fun member => (inside _ member).2 rfl
    have opens : openBracket ∉ host := fun member => (inside _ member).1 rfl
    have port_free : colonByte ∉ port ∧ openBracket ∉ port ∧ closeBracket ∉ port :=
      ⟨fun member => (free _ member).1 rfl,fun member => (free _ member).2.1 rfl,fun member => (free _ member).2.2 rfl⟩
    have distinct : openBracket ≠ colonByte ∧ closeBracket ≠ colonByte := by decide
    rw [splitHostPort_bracketed host (colonByte :: port) closes]
    simp [opens,port_free,distinct]

theorem stripBrackets_eq (ip : Bytes) : ∃ stripped, stripBrackets ip = some stripped ∧
    (ip = stripped ∨ ip = openBracket :: stripped ++ [closeBracket]) := by
  unfold stripBrackets
  split
  next wide =>
    obtain ⟨long,first,last⟩ := wide
    obtain ⟨rest,rfl⟩ := List.head?_eq_some_iff.mp first
    obtain ⟨inner,byte,rfl⟩ := (List.eq_nil_or_concat' rest).resolve_left (by rintro rfl; simp at long)
    have closes : byte = closeBracket := by simpa [List.getLast?_cons] using last
    subst closes
    refine ⟨inner,?_,.inr rfl⟩
    rw [slice_eq (by simp) (by simp)]
    simp
  next => exact ⟨ip,rfl,.inl rfl⟩

/-- Taking an address apart undoes putting it together, and nothing else is taken apart; a
remote address that is not of this form still yields the parts it consists of. -/
theorem splitRemoteAddr_forms (s : Bytes) :
    (∃ answer, splitHostPort s = some answer) ∧
      (∀ h p, splitHostPort s = some (some (h,p)) ↔ HostPort h p s) ∧
      ∃ ip port, splitRemoteAddr s = some (ip,port) ∧
        (∀ h p, splitHostPort s = some (some (h,p)) → ip = h ∧ port = p) ∧
        (splitHostPort s = some none → colonByte ∉ port ∧
          (s = ip ∨ s = ip ++ colonByte :: port ∨ s = openBracket :: ip ++ [closeBracket] ∨
            s = openBracket :: ip ++ closeBracket :: colonByte :: port)) := by
  refine ⟨splitHostPort_total s,fun h p => ⟨splitHostPort_some,splitHostPort_of⟩,?_⟩
  obtain ⟨answer,parsed⟩ := splitHostPort_total s
  cases answer with
  | some pair =>
    obtain ⟨host,port⟩ := pair
    refine ⟨host,port,by simp [splitRemoteAddr,parsed],?_,by simp [parsed]⟩
    intro h p same
    cases parsed.symm.trans same
    exact ⟨rfl,rfl⟩
  | none =>
    cases found : rposition colonByte s with
    | none =>
      obtain ⟨ip,stripped,whole⟩ := stripBrackets_eq s
      refine ⟨ip,[],by simp [splitRemoteAddr,parsed,found,stripped],by simp [parsed],fun _ => ⟨by simp,?_⟩⟩
      exact whole.elim .inl fun bracketed => .inr (.inr (.inl bracketed))
    | some colon =>
      obtain ⟨front,port,rfl,rfl,last⟩ := rposition_some found
      obtain ⟨ip,stripped,whole⟩ := stripBrackets_eq front
      have before : slice (front ++ colonByte :: port) 0 front.length = some front := by
        rw [slice_eq (Nat.zero_le _) (by simp)]
        simp
      have after : slice (front ++ colonByte :: port) (front.length + 1) (front ++ colonByte :: port).length = some port := by
        rw [slice_eq (by simp) (Nat.le_refl _),drop_after,List.take_of_length_le (by simp; omega)]
      refine ⟨ip,port,?_,by simp [parsed],fun _ => ⟨last,?_⟩⟩
      · rw [splitRemoteAddr,parsed]
        simp only [Option.bind_eq_bind,Option.bind_some,found,before,after,stripped,Option.pure_def]
      · rcases whole with rfl | rfl
        · exact .inr (.inl rfl)
        · exact .inr (.inr (.inr (by simp)))

end Frankenrust.Cgi
