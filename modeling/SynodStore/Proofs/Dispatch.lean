import SynodStore.Proofs.Encoding
import SynodStore.Remote

namespace SynodStore

namespace Service

variable {α ρ : Type} [Service α ρ] {q : α} {reply : ρ}

theorem response?_responseText (h : (encodeReply α reply).Proper) :
    response? (responseText α (.ok reply)) = some (.ok (encodeReply α reply)) := by
  have hread : Json.ofText? (responseText α (.ok reply)) =
      some (.ofFields [("data", .ofFields [("Ok", encodeReply α reply)])]) :=
    Json.ofText?_text ⟨rfl, ⟨rfl, h, trivial⟩, trivial⟩
  rw [response?, hread]
  rfl

theorem interpret_responseText (node : String) (q : α) (reply : ρ) (h : (encodeReply α reply).Proper)
    (hd : decodeReply q (encodeReply α reply) = some reply) :
    interpret node q (responseText α (.ok reply)) = .ok reply := by
  rw [interpret, response?_responseText h]
  dsimp only
  rw [hd]

end Service

namespace Request

def Asks : Request → Reply → Prop
  | prepare _, .promise _ | accept _, .vote _ | learn _, .learned => True
  | _, _ => False

variable {q : Request} {reply : Reply}

theorem asks_refusal (q : Request) : q.Asks q.refusal := by
  cases q <;> trivial

theorem asks_answer (q : Request) (r : Replica) : q.Asks (r.answer q).1 := by
  cases q <;> trivial

theorem asks_call (q : Request) (place : Nat) (c : Cluster) : q.Asks (Cluster.call place q c).1 := by
  rw [Cluster.call, Cluster.visit]
  cases c.replicas[place]? with
  | none => exact q.asks_refusal
  | some r => exact q.asks_answer r

theorem interpret_reply (node : String) (h : q.Asks reply) :
    Service.interpret node q (Service.responseText Request (.ok reply)) = .ok reply := by
  cases q with
  | prepare m =>
      cases reply with
      | promise p =>
          have hproper : (Wire.encode p).Proper := Wire.Faithful.proper p
          have hdecode : Wire.decode (Wire.encode p) = some p := Wire.Faithful.decode_encode p
          exact Service.interpret_responseText node _ _ hproper (congrArg (Option.map _) hdecode)
      | vote v => cases h
      | learned => cases h
  | accept m =>
      cases reply with
      | vote v =>
          have hproper : (Wire.encode v).Proper := Wire.Faithful.proper v
          have hdecode : Wire.decode (Wire.encode v) = some v := Wire.Faithful.decode_encode v
          exact Service.interpret_responseText node _ _ hproper (congrArg (Option.map _) hdecode)
      | promise p => cases h
      | learned => cases h
  | learn m =>
      cases reply with
      | learned => exact Service.interpret_responseText node _ _ (Wire.Faithful.proper ()) rfl
      | promise p => cases h
      | vote v => cases h

end Request

namespace Remote

theorem serveRoles_toText (place : Nat) (q : Request) (net : Remote) : serveRoles place (Wire.toText q) net =
    (.response (Service.responseText Request (.ok (Cluster.call place q net.services).1)) none,
      { net with services := (Cluster.call place q net.services).2 }) := by
  rw [serveRoles, Wire.ofText?_toText]
  rfl

end Remote

theorem Host.roles_inj {i j : Nat} (h : (Host.roles i).name = (Host.roles j).name) : i = j := by
  have hdigits : Nat.toDigits 10 i = Nat.toDigits 10 j := by
    simpa [name, toString, Nat.repr] using congrArg String.toList h
  have hnat : some i = some j := by
    rw [← Json.Literal.natural?_toDigits i, hdigits, Json.Literal.natural?_toDigits]
  exact Option.some.inj hnat

theorem Host.eq_roles_of_name {host : Host} {place : Nat} (h : host.name = (Host.roles place).name) :
    host = .roles place := by
  cases host with
  | roles place' => exact congrArg Host.roles (Host.roles_inj h)
  | front place' => simpa [name] using congrArg String.toList h

end SynodStore
