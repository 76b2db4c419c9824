import Protowire.Proofs.Vision.Lens
import Protowire.Vision.Service

/-!
The client over the server, without a network in between, is the handler. A typed request comes back
from its bytes, the path leads to the method that was called, and the reply comes back from its bytes
as well; so the handler answers the very request, once, and its answer is the caller's. Where the path
is no method's, or the bytes are no request's, the handler is not asked. How often it is asked, and
what, is seen from a handler that keeps a log.
-/

namespace Protowire.Vision

variable {σ : Type} {handler : Handler σ} {method : Method} {request : Message} {s : σ}

/-- The handler with a log of its calls, the last one at the end. -/
def Handler.logged (handler : Handler σ) : Handler (σ × List (Method × Message)) :=
  fun method request (s, log) =>
    let (answer, s') := handler method request s
    (answer, s', log ++ [(method, request)])

/-! ### Methods and their paths -/

/-- No two methods have one path, and none is served in the place of another. -/
theorem Method.served?_path (h : method ∈ Method.all) : served? method.path = some method := by
  revert method
  decide +kernel

theorem Method.served?_eq_none {path : String} (h : ∀ method ∈ Method.all, method.path ≠ path) :
    served? path = none := by
  have hnone : byPath? path = none :=
    List.find?_eq_none.mpr fun method hmethod => by simpa using h method hmethod
  rw [served?, hnone, Option.bind_none]

/-! ### The server -/

theorem Status.code_withCode (c : Code) (text : String) :
    Status.code (Status.withCode schema c text) = c.number := by
  obtain ⟨hcode, _⟩ := Property.get_pair (t := .status) (a := "code") (b := "message")
    (v := .int32 c.number) (w := .string text) (.head _) (.tail _ (.head _)) rfl rfl rfl
  have hread : (Property.one 1 "code" .int32).get (Status.withCode schema c text) =
      some (.int32 (Status.code (Status.withCode schema c text))) :=
    congrArg some (Message.getD_map _ 1 Value.int32? Value.int32 0)
  simpa [Value.unsigned] using hread.symm.trans hcode

namespace Server

variable {S : Schema} {path : String} {bytes : List UInt8}

theorem channel_of_unknown (h : Method.served? path = none) (s : σ) :
    channel S handler path bytes s = (.error ((RpcError.unknownMethod path).toStatus S), s) := by
  simp only [channel, dispatch, h]
  rfl

theorem channel_of_undecodable {e : DecodeError} (h : Method.served? path = some method)
    (hdecode : Message.decode S method.input.id .default bytes = .error e) (s : σ) :
    channel S handler path bytes s = (.error ((RpcError.decode e).toStatus S), s) := by
  simp only [channel, dispatch, h, hdecode]
  rfl

/-- The handler is asked once, and its answer is passed on. -/
theorem channel_of_decoded (h : Method.served? path = some method)
    (hdecode : Message.decode S method.input.id .default bytes = .ok request) (s : σ) :
    channel S handler path bytes s =
      ((handler method request s).1.map (Message.encode S), (handler method request s).2) := by
  simp only [channel, dispatch, h, hdecode, bind, StateT.bind]
  rcases handler method request s with ⟨_ | _, _⟩ <;> rfl

end Server

/-! ### The client -/

/-- What the caller makes of the handler's answer. -/
def Client.received (method : Method) : Except Message Message → Except RpcError Message
  | .error status => .error (.status status)
  | .ok reply =>
    (Message.decode schema method.output.id .default (reply.encode schema)).mapError .decode

theorem Client.call_of_typed (hmethod : method ∈ Method.all) (hrequest : Typed request)
    (htype : request.type = method.input.id)
    (hsize : (request.encode schema).length ≤ Limits.default.size) (handler : Handler σ) (s : σ) :
    call schema (Server.channel schema handler) method request s =
      (received method (handler method request s).1, (handler method request s).2) := by
  have hchannel : Server.channel schema handler method.path (request.encode schema) s =
      ((handler method request s).1.map (Message.encode schema), (handler method request s).2) :=
    Server.channel_of_decoded (Method.served?_path hmethod)
      (hrequest.decode_of_encode htype hsize) s
  simp only [call, bind, StateT.bind, hchannel]
  rcases handler method request s with ⟨status | reply, s'⟩
  · rfl
  · simp only [Except.map, received]
    cases Message.decode schema method.output.id .default (reply.encode schema) <;> rfl

theorem Client.received_of_typed {reply : Message} (hreply : Typed reply)
    (htype : reply.type = method.output.id)
    (hsize : (reply.encode schema).length ≤ Limits.default.size) :
    received method (.ok reply) = .ok reply := by
  rw [received, hreply.decode_of_encode htype hsize]
  rfl

/-- Calling a method with a typed request is asking its handler for just this request, once: the
handler's reply or status is the caller's, and the handler's state is as the handler leaves it. A
path of no method and bytes of no request are refused without asking the handler. -/
theorem service_transparent (handler : Handler σ) (s : σ) (log : List (Method × Message)) :
    (∀ method ∈ Method.all, ∀ request, Typed request → request.type = method.input.id →
      (request.encode schema).length ≤ Limits.default.size →
      let outcome := Client.call schema (Server.channel schema handler) method request s
      outcome.2 = (handler method request s).2 ∧
      (Client.call schema (Server.channel schema handler.logged) method request (s, log)).2.2 =
        log ++ [(method, request)] ∧
      (∀ reply, (handler method request s).1 = .ok reply → Typed reply →
        reply.type = method.output.id → (reply.encode schema).length ≤ Limits.default.size →
        outcome.1 = .ok reply) ∧
      ∀ status, (handler method request s).1 = .error status →
        outcome.1 = .error (.status status)) ∧
    (∀ path bytes, (∀ method ∈ Method.all, method.path ≠ path) →
      (∃ status, Server.channel schema handler path bytes s = (.error status, s) ∧
        Status.code status = Code.unimplemented.number) ∧
      (Server.channel schema handler.logged path bytes (s, log)).2.2 = log) ∧
    ∀ method ∈ Method.all, ∀ bytes e,
      Message.decode schema method.input.id .default bytes = .error e →
      (∃ status, Server.channel schema handler method.path bytes s = (.error status, s) ∧
        Status.code status = Code.invalidArgument.number) ∧
      (Server.channel schema handler.logged method.path bytes (s, log)).2.2 = log := by
  refine ⟨?called, ?unknown, ?undecodable⟩
  case called =>
    intro method hmethod request hrequest htype hsize
    have hcall := Client.call_of_typed hmethod hrequest htype hsize handler s
    have hlogged := Client.call_of_typed hmethod hrequest htype hsize handler.logged (s, log)
    refine ⟨by rw [hcall], by rw [hlogged]; rfl, ?_, ?_⟩
    · intro reply hanswer hreply houtput hlength
      rw [hcall, hanswer]
      exact Client.received_of_typed hreply houtput hlength
    · intro status hanswer
      rw [hcall, hanswer]
      rfl
  case unknown =>
    intro path bytes hpath
    have hnone := Method.served?_eq_none hpath
    exact ⟨⟨_, Server.channel_of_unknown hnone s, Status.code_withCode ..⟩,
      by rw [Server.channel_of_unknown hnone]⟩
  case undecodable =>
    intro method hmethod bytes e hdecode
    have hsome := Method.served?_path hmethod
    exact ⟨⟨_, Server.channel_of_undecodable hsome hdecode s, Status.code_withCode ..⟩,
      by rw [Server.channel_of_undecodable hsome hdecode]⟩

/-- A message of which just the name is set. -/
def named (t : TypeName) (name : String) : Message :=
  (Property.one 1 "name" .string).set schema (Message.empty t.id) (.string name)

theorem typed_named {t : TypeName} (hname : .one 1 "name" .string ∈ t.properties) (name : String) :
    Typed (named t name) :=
  (Typed.new t).set rfl hname rfl (by simp [Value.messages])

/-- Counts its calls and answers each with a product of the name that is asked for. -/
def countingHandler : Handler Nat := fun _ request calls =>
  (.ok (named .product (request.string 1)), calls + 1)

theorem product_is_got :
    let getProduct : Method := ⟨"GetProduct", .getProductRequest, .product, none⟩
    let request := named .getProductRequest "p"
    (Client.call schema (Server.channel schema countingHandler) getProduct request 0).1 =
        .ok (named .product "p") ∧
      (Client.call schema (Server.channel schema countingHandler) getProduct request 0).2 = 1 ∧
      (Client.call schema (Server.channel schema countingHandler.logged) getProduct request
        (0, [])).2.2 = [(getProduct, request)] ∧
      (Server.channel schema countingHandler.logged "/elsewhere" [] (0, [])).2.2 = [] := by
  obtain ⟨hcalled, hunknown, _⟩ := service_transparent countingHandler 0 []
  obtain ⟨hstate, hlog, hreply, _⟩ := hcalled ⟨"GetProduct", .getProductRequest, .product, none⟩
    (by decide) (named .getProductRequest "p") (typed_named (.head _) "p") (by cbv) (by cbv)
  refine ⟨hreply _ ?_ (typed_named (.head _) "p") (by cbv) (by cbv), hstate, hlog,
    (hunknown "/elsewhere" [] ?_).2⟩
  · cbv
  · decide +kernel

end Protowire.Vision
