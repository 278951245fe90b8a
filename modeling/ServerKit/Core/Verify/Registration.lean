import ServerKit.Core.Services
import ServerKit.Lib.Outcome

/-!
# Registering services

Which sequences of `AddService` and `AddRpcService` go through, and what is found at an address
after them. Every function is given the exact condition under which it returns, and what then holds.
-/

namespace ServerKit

open Lib

variable {T : Type}

/-! ## The methods of one `RpcService` -/

/-- The id of a method. -/
def RpcMeta.id (m : RpcMeta T) : Except Fault UInt64 := hashString m.method.fullName

/-- Methods with ids, no two of which are the same. -/
structure Keyed (metas : List (RpcMeta T)) : Prop where
  id : ∀ m ∈ metas, ∃ methodId, m.id = .ok methodId
  distinct : metas.Pairwise fun m m' => m.id ≠ m'.id

theorem keyed_nil : Keyed ([] : List (RpcMeta T)) := ⟨by simp, .nil⟩

theorem Keyed.of_append {metas metas' : List (RpcMeta T)} (h : Keyed (metas ++ metas')) :
    Keyed metas :=
  ⟨fun m hm => h.id m (List.mem_append_left _ hm), (List.pairwise_append.mp h.distinct).1⟩

theorem keyed_snoc {metas : List (RpcMeta T)} {m : RpcMeta T} :
    Keyed (metas ++ [m]) ↔
      Keyed metas ∧ ∃ methodId, m.id = .ok methodId ∧ ∀ m' ∈ metas, m'.id ≠ .ok methodId := by
  constructor
  · intro h
    obtain ⟨methodId, hid⟩ := h.id m (by simp)
    refine ⟨h.of_append, methodId, hid, fun m' hm' => ?_⟩
    rw [← hid]
    exact (List.pairwise_append.mp h.distinct).2.2 m' hm' m (by simp)
  · rintro ⟨h, methodId, hid, hne⟩
    refine ⟨fun m' hm' => ?_, List.pairwise_append.mpr ⟨h.distinct, by simp, fun m' hm' x hx => ?_⟩⟩
    · rcases List.mem_append.mp hm' with hm' | hm'
      · exact h.id m' hm'
      · rw [List.mem_singleton.mp hm']
        exact ⟨methodId, hid⟩
    · rw [List.mem_singleton.mp hx, hid]
      exact hne m' hm'

namespace RpcService

/-- `GetService` finds these methods, each under its id, and no others. -/
def Holds (metas : List (RpcMeta T)) (s : RpcService T) : Prop :=
  ∀ methodId m, s.getService methodId = some m ↔ m ∈ metas ∧ m.id = .ok methodId

theorem holds_new : (RpcService.new T).Holds [] := by
  intro methodId m
  simp [new, getService]

theorem registerMethod_spec {s : RpcService T} {metas : List (RpcMeta T)} (h : s.Holds metas)
    (hkeyed : Keyed metas) (service : ServicePtr) (method : MethodDescriptor T) :
    ReturnsIff (Keyed (metas ++ [⟨service, method⟩])) (Holds (metas ++ [⟨service, method⟩]))
      (s.registerMethod service method) := by
  rw [registerMethod, keyed_snoc]
  cases hid : hashString method.fullName with
  | error f =>
    refine .error ?_
    rintro ⟨-, methodId, hid', -⟩
    rw [RpcMeta.id, hid] at hid'
    cases hid'
  | ok methodId =>
    rw [ok_bind]
    cases hfind : s.methodMap methodId with
    | some m =>
      obtain ⟨hm, hmid⟩ := (h methodId m).mp hfind
      refine .error ?_
      rintro ⟨-, methodId', hid', hne⟩
      obtain rfl := Except.ok.inj (hid.symm.trans hid')
      exact hne m hm hmid
    | none =>
      have hfree : ∀ m ∈ metas, m.id ≠ .ok methodId := by
        intro m hm hmid
        have hget := (h methodId m).mpr ⟨hm, hmid⟩
        rw [getService, hfind] at hget
        cases hget
      refine .ok ⟨hkeyed, methodId, hid, hfree⟩ fun methodId' m => ?_
      change Function.update s.methodMap methodId _ methodId' = some m ↔ _
      by_cases heq : methodId' = methodId
      · subst heq
        rw [Function.update_self, Option.some.injEq, List.mem_append, List.mem_singleton]
        constructor
        · rintro rfl
          exact ⟨.inr rfl, hid⟩
        · rintro ⟨hm | hm, hmid⟩
          · exact absurd hmid (hfree m hm)
          · exact hm.symm
      · rw [Function.update_of_ne heq, List.mem_append, List.mem_singleton]
        refine (h methodId' m).trans ⟨fun ⟨hm, hmid⟩ => ⟨.inl hm, hmid⟩, ?_⟩
        rintro ⟨hm | rfl, hmid⟩
        · exact ⟨hm, hmid⟩
        · exact absurd (Except.ok.inj (hmid.symm.trans hid)) heq

theorem registerMethods_spec {service : ServicePtr} (methods : List (MethodDescriptor T)) :
    ∀ {s : RpcService T} {metas : List (RpcMeta T)}, s.Holds metas → Keyed metas →
      ReturnsIff (Keyed (metas ++ methods.map fun m => ⟨service, m⟩))
        (Holds (metas ++ methods.map fun m => ⟨service, m⟩))
        (s.registerMethods service methods) := by
  induction methods with
  | nil =>
    intro s metas h hkeyed
    rw [List.map_nil, List.append_nil]
    exact .ok hkeyed h
  | cons method methods ih =>
    intro s metas h hkeyed
    have hcons : metas ++ (method :: methods).map (fun m => (⟨service, m⟩ : RpcMeta T)) =
        metas ++ [⟨service, method⟩] ++ methods.map fun m => ⟨service, m⟩ := by simp
    rw [registerMethods, hcons]
    refine ((registerMethod_spec h hkeyed service method).bind fun s' hkeyed' h' =>
      ih h' hkeyed').congr ⟨fun h => h.2, fun h => ⟨h.of_append, h⟩⟩ fun _ => id

end RpcService

/-! ## The calls of the application -/

namespace ServiceCall

def address : ServiceCall T → List UInt8
  | addService endpoint _ _ => endpoint.str
  | addRpcService endpoint _ _ => endpoint.str

/-- The methods that the call registers at an address. -/
def metas (a : List UInt8) : ServiceCall T → List (RpcMeta T)
  | addService _ _ _ => []
  | addRpcService endpoint service _ =>
    if endpoint.str = a then service.methods.map fun m => ⟨service.ptr, m⟩ else []

/-- Whether the call goes through behind others: `AddService` needs an address no other call has
had, `AddRpcService` one that no `AddService` has had; the first call at an address needs its
`Listen` to succeed; and the methods at an address need ids of their own. -/
def Accepted (before : List (ServiceCall T)) : ServiceCall T → Prop
  | addService endpoint _ listens => (∀ c ∈ before, c.address ≠ endpoint.str) ∧ listens = true
  | addRpcService endpoint service listens =>
    (∀ e h l, addService e h l ∈ before → e.str ≠ endpoint.str) ∧
      ((∀ c ∈ before, c.address ≠ endpoint.str) → listens = true) ∧
      Keyed (before.flatMap (metas endpoint.str) ++ service.methods.map fun m => ⟨service.ptr, m⟩)

end ServiceCall

namespace Listeners

/-- What is at the addresses after the calls. -/
structure Holds (cs : List (ServiceCall T)) (s : Listeners T) : Prop where
  user : ∀ endpoint handler l, .addService endpoint handler l ∈ cs →
    s.handler endpoint.str = some (.user handler)
  rpc : ∀ endpoint service l, .addRpcService endpoint service l ∈ cs →
    ∃ rpcService, s.handler endpoint.str = some (.rpc rpcService)
  free : ∀ a, (∀ c ∈ cs, c.address ≠ a) → s.handler a = none
  methods : ∀ a rpcService, s.handler a = some (.rpc rpcService) →
    rpcService.Holds (cs.flatMap (ServiceCall.metas a)) ∧ Keyed (cs.flatMap (ServiceCall.metas a))

theorem holds_new : (Listeners.new T).Holds [] := by
  refine ⟨by simp, by simp, fun _ _ => rfl, fun a rpcService h => ?_⟩
  cases h

variable {s : Listeners T} {cs : List (ServiceCall T)}

/-- The handler of an address that has been used. -/
theorem Holds.some_of_mem (h : s.Holds cs) {c : ServiceCall T} (hc : c ∈ cs) :
    (s.handler c.address).isSome := by
  cases c with
  | addService endpoint handler l =>
    rw [ServiceCall.address, h.user _ _ _ hc]
    rfl
  | addRpcService endpoint service l =>
    obtain ⟨rpcService, hs⟩ := h.rpc _ _ _ hc
    rw [ServiceCall.address, hs]
    rfl

theorem Holds.none_iff (h : s.Holds cs) (a : List UInt8) :
    s.handler a = none ↔ ∀ c ∈ cs, c.address ≠ a := by
  refine ⟨fun hnone c hc heq => ?_, h.free a⟩
  have hsome := h.some_of_mem hc
  rw [heq, hnone] at hsome
  cases hsome

/-- No method is registered at an address before its Listener is there. -/
theorem metas_eq_nil {a : List UInt8} (h : ∀ c ∈ cs, c.address ≠ a) :
    cs.flatMap (ServiceCall.metas a) = [] := by
  rw [List.flatMap_eq_nil_iff]
  intro c hc
  cases c with
  | addService => rfl
  | addRpcService endpoint service l =>
    have hne : endpoint.str ≠ a := h _ hc
    rw [ServiceCall.metas, if_neg hne]

theorem Holds.addService (h : s.Holds cs) (endpoint : Endpoint) (handler : ℕ) (listens : Bool) :
    ReturnsIff (ServiceCall.Accepted cs (.addService endpoint handler listens))
      (Holds (cs ++ [.addService endpoint handler listens]))
      (s.addService endpoint handler listens) := by
  rw [Listeners.addService, ServiceCall.Accepted, ← h.none_iff]
  cases hfind : s.handler endpoint.str with
  | some found =>
    exact .error fun hnone => by cases hnone.1
  | none =>
    have hnew := (h.none_iff endpoint.str).mp hfind
    unfold listen
    cases listens with
    | false => exact .error fun hlistens => by cases hlistens.2
    | true =>
      refine .ok ⟨rfl, rfl⟩ ⟨fun e k l hmem => ?_, fun e service l hmem => ?_, fun a ha => ?_,
        fun a rpcService ha => ?_⟩
      · rcases List.mem_append.mp hmem with hmem | hmem
        · exact (Function.update_of_ne (hnew _ hmem) ..).trans (h.user e k l hmem)
        · simp only [List.mem_singleton, ServiceCall.addService.injEq] at hmem
          obtain ⟨rfl, rfl, -⟩ := hmem
          exact Function.update_self ..
      · rcases List.mem_append.mp hmem with hmem | hmem
        · obtain ⟨rpcService, hs⟩ := h.rpc e service l hmem
          exact ⟨rpcService, (Function.update_of_ne (hnew _ hmem) ..).trans hs⟩
        · simp at hmem
      · have hne : a ≠ endpoint.str := (ha _ (List.mem_append_right _ List.mem_cons_self)).symm
        exact (Function.update_of_ne hne ..).trans
          (h.free a fun c hc => ha c (List.mem_append_left _ hc))
      · by_cases heq : a = endpoint.str
        · subst heq
          have hself := Function.update_self endpoint.str (some (AcceptorHandler.user handler))
            s.handler
          cases hself.symm.trans ha
        · have hs := (Function.update_of_ne heq ..).symm.trans ha
          simpa [ServiceCall.metas] using h.methods a rpcService hs

/-- `Register`, at an address whose Listener has an `RpcService`. -/
theorem Holds.register (h : s.Holds cs) {s₁ : Listeners T} {endpoint : Endpoint}
    {rpcService : RpcService T} (service : Service T) (listens : Bool)
    (hhandler : s₁.handler endpoint.str = some (.rpc rpcService))
    (hothers : ∀ a, a ≠ endpoint.str → s₁.handler a = s.handler a)
    (huser : ∀ e k l, .addService e k l ∈ cs → e.str ≠ endpoint.str)
    (hmethods : rpcService.Holds (cs.flatMap (ServiceCall.metas endpoint.str)))
    (hkeyed : Keyed (cs.flatMap (ServiceCall.metas endpoint.str))) :
    ReturnsIff (Keyed (cs.flatMap (ServiceCall.metas endpoint.str) ++
        service.methods.map fun m => ⟨service.ptr, m⟩))
      (Holds (cs ++ [.addRpcService endpoint service listens]))
      (s₁.register endpoint.str service) := by
  have hregister := @RpcService.registerMethods_spec _ service.ptr service.methods _ _ hmethods
      hkeyed
  have hmetas : (cs ++ [ServiceCall.addRpcService endpoint service listens]).flatMap
      (ServiceCall.metas endpoint.str) = cs.flatMap (ServiceCall.metas endpoint.str) ++
        service.methods.map fun m => ⟨service.ptr, m⟩ := by
    rw [List.flatMap_append, List.flatMap_singleton, ServiceCall.metas, if_pos rfl]
  rw [Listeners.register, hhandler]
  refine (@ReturnsIff.bind _ _ _ _ _ True (Holds _) _ _ hregister
    fun rpcService' hkeyed' hholds => .ok trivial ?_).congr (by rw [and_true]) fun _ => id
  have hself : (s₁.setHandler endpoint.str (.rpc rpcService')).handler endpoint.str =
      some (.rpc rpcService') := Function.update_self ..
  have hne : ∀ a, a ≠ endpoint.str →
      (s₁.setHandler endpoint.str (.rpc rpcService')).handler a = s.handler a := fun a ha =>
    (Function.update_of_ne ha ..).trans (hothers a ha)
  refine ⟨fun e k l hmem => ?_, fun e service' l hmem => ?_, fun a ha => ?_, fun a found ha => ?_⟩
  · rcases List.mem_append.mp hmem with hmem | hmem
    · rw [hne _ (huser e k l hmem)]
      exact h.user e k l hmem
    · simp at hmem
  · by_cases heq : e.str = endpoint.str
    · exact ⟨rpcService', heq ▸ hself⟩
    · rcases List.mem_append.mp hmem with hmem | hmem
      · rw [hne _ heq]
        exact h.rpc e service' l hmem
      · simp only [List.mem_singleton, ServiceCall.addRpcService.injEq] at hmem
        exact absurd (congrArg Endpoint.str hmem.1) heq
  · have hdiff : a ≠ endpoint.str := (ha _ (List.mem_append_right _ List.mem_cons_self)).symm
    rw [hne a hdiff]
    exact h.free a fun c hc => ha c (List.mem_append_left _ hc)
  · by_cases heq : a = endpoint.str
    · subst heq
      rw [hself, Option.some.injEq, AcceptorHandler.rpc.injEq] at ha
      subst ha
      rw [hmetas]
      exact ⟨hholds, hkeyed'⟩
    · rw [hne a heq] at ha
      have hsame : (cs ++ [ServiceCall.addRpcService endpoint service listens]).flatMap
          (ServiceCall.metas a) =
          cs.flatMap (ServiceCall.metas a) := by
        rw [List.flatMap_append, List.flatMap_singleton, ServiceCall.metas,
          if_neg fun h => heq h.symm, List.append_nil]
      rw [hsame]
      exact h.methods a found ha

theorem Holds.addRpcService (h : s.Holds cs) (endpoint : Endpoint) (service : Service T)
    (listens : Bool) :
    ReturnsIff (ServiceCall.Accepted cs (.addRpcService endpoint service listens))
      (Holds (cs ++ [.addRpcService endpoint service listens]))
      (s.addRpcService endpoint service listens) := by
  rw [Listeners.addRpcService, ServiceCall.Accepted, ← h.none_iff]
  cases hfind : s.handler endpoint.str with
  | none =>
    have hnew := (h.none_iff endpoint.str).mp hfind
    have hempty := metas_eq_nil hnew
    have huser : ∀ e k l, .addService e k l ∈ cs → e.str ≠ endpoint.str := fun e k l hmem =>
      hnew _ hmem
    unfold listen
    cases listens with
    | false =>
      refine .error ?_
      rintro ⟨-, hlistens, -⟩
      cases hlistens rfl
    | true =>
      have hself : (s.setHandler endpoint.str (.rpc (.new T))).handler endpoint.str =
          some (.rpc (.new T)) := Function.update_self ..
      refine (h.register service true hself (fun a ha => Function.update_of_ne ha ..) huser ?_
        ?_).congr
        ⟨fun hk => ⟨huser, fun _ => rfl, hk⟩, fun hk => hk.2.2⟩ fun _ => id
      · rw [hempty]
        exact RpcService.holds_new
      · rw [hempty]
        exact keyed_nil
  | some found =>
    have hused : ∃ c ∈ cs, c.address = endpoint.str := by
      by_contra hnone
      have hfree := h.free endpoint.str fun c hc heq => hnone ⟨c, hc, heq⟩
      rw [hfind] at hfree
      cases hfree
    cases found with
    | user handler =>
      -- the first call at the address was an `AddService`
      obtain ⟨c, hc, haddress⟩ := hused
      have hcall : ∃ e k l, .addService e k l ∈ cs ∧ e.str = endpoint.str := by
        cases c with
        | addService e k l => exact ⟨e, k, l, hc, haddress⟩
        | addRpcService e service' l =>
          obtain ⟨rpcService, hs⟩ := h.rpc e service' l hc
          have heq : e.str = endpoint.str := haddress
          rw [heq, hfind] at hs
          cases hs
      obtain ⟨e, k, l, hmem, heq⟩ := hcall
      have hcast : s.register endpoint.str service = .error .outOfBounds := by
        rw [Listeners.register, hfind]
      rw [Option.isNone_some, if_neg Bool.false_ne_true, ok_bind]
      dsimp only
      rw [hcast]
      exact .error fun hacc => hacc.1 e k l hmem heq
    | rpc rpcService =>
      have huser : ∀ e k l, .addService e k l ∈ cs → e.str ≠ endpoint.str := by
        intro e k l hmem heq
        have hs := h.user e k l hmem
        rw [heq, hfind] at hs
        cases hs
      obtain ⟨hmethods, hkeyed⟩ := h.methods _ _ hfind
      rw [Option.isNone_some, if_neg Bool.false_ne_true, ok_bind]
      exact (h.register service listens hfind (fun _ _ => rfl) huser hmethods hkeyed).congr
        ⟨fun hk => ⟨huser, fun hnone => (by cases hnone), hk⟩, fun hk => hk.2.2⟩ fun _ => id

theorem Holds.call (h : s.Holds cs) (c : ServiceCall T) :
    ReturnsIff (c.Accepted cs) (Holds (cs ++ [c])) (s.call c) := by
  cases c with
  | addService endpoint handler listens => exact h.addService endpoint handler listens
  | addRpcService endpoint service listens => exact h.addRpcService endpoint service listens

/-- Every call is accepted behind those before it. -/
def AllAccepted (before : List (ServiceCall T)) : List (ServiceCall T) → Prop
  | [] => True
  | c :: cs => c.Accepted before ∧ AllAccepted (before ++ [c]) cs

theorem Holds.calls (rest : List (ServiceCall T)) : ∀ {s : Listeners T} {cs : List (ServiceCall T)},
    s.Holds cs → ReturnsIff (AllAccepted cs rest) (Holds (cs ++ rest)) (s.calls rest) := by
  induction rest with
  | nil =>
    intro s cs h
    rw [List.append_nil]
    exact .ok trivial h
  | cons c rest ih =>
    intro s cs h
    rw [Listeners.calls]
    refine ((h.call c).bind fun s' _ h' => ih h').congr Iff.rfl fun s' h' => ?_
    simpa using h'

theorem allAccepted_iff (cs : List (ServiceCall T)) : ∀ before : List (ServiceCall T),
    AllAccepted before cs ↔ ∀ front c back, cs = front ++ c :: back →
      c.Accepted (before ++ front) := by
  induction cs with
  | nil => simp [AllAccepted]
  | cons d cs ih =>
    intro before
    rw [AllAccepted, ih]
    constructor
    · rintro ⟨hd, hrest⟩ front c back heq
      cases front with
      | nil =>
        obtain ⟨rfl, -⟩ := List.cons_eq_cons.mp heq
        rwa [List.append_nil]
      | cons d' front =>
        obtain ⟨rfl, hback⟩ := List.cons_eq_cons.mp heq
        have hc := hrest front c back hback
        rwa [List.append_assoc] at hc
    · intro h
      refine ⟨by simpa using h [] d cs rfl, fun front c back heq => ?_⟩
      have hc := h (d :: front) c back (by rw [heq, List.cons_append])
      rwa [List.append_assoc]

end Listeners

/-- **Registration.** A sequence of `AddService` and `AddRpcService` calls goes through exactly when
each call is accepted behind those before it. Then an address has the user's handler that it has
been given, or an `RpcService` where `GetService` finds the methods that have been registered at
that address, each under the hash of its name, and no others; and at all other addresses nothing
listens. -/
theorem services_registered_iff (cs : List (ServiceCall T)) :
    ((∃ s, (Listeners.new T).calls cs = .ok s) ↔
      ∀ before c after, cs = before ++ c :: after → c.Accepted before) ∧
    ∀ s, (Listeners.new T).calls cs = .ok s →
      (∀ endpoint handler l, .addService endpoint handler l ∈ cs →
        s.handler endpoint.str = some (.user handler)) ∧
      (∀ endpoint service l, .addRpcService endpoint service l ∈ cs → ∃ rpcService,
        s.handler endpoint.str = some (.rpc rpcService) ∧ ∀ methodId m,
          rpcService.getService methodId = some m ↔
            m ∈ cs.flatMap (ServiceCall.metas endpoint.str) ∧
              hashString m.method.fullName = .ok methodId) ∧
      ∀ a, (∀ c ∈ cs, c.address ≠ a) → s.handler a = none := by
  obtain ⟨hiff, hholds⟩ := Listeners.Holds.calls cs Listeners.holds_new
  refine ⟨?_, fun s hs => ?_⟩
  · rw [hiff, Listeners.allAccepted_iff]
    rfl
  · have h := hholds s hs
    rw [List.nil_append] at h
    refine ⟨h.user, fun endpoint service l hmem => ?_, h.free⟩
    obtain ⟨rpcService, hrpc⟩ := h.rpc endpoint service l hmem
    exact ⟨rpcService, hrpc, (h.methods _ _ hrpc).1⟩

end ServerKit
