import Custodia.SimpleClient

/-! # Relays — servers that forward to one another

    A server whose consumers are forwarders asks another one for all that it
    is asked for, and this may do the same, until a server keeps the secrets.

    * `Gateway`: a server that forwards;
    * `serveThrough`: a chain of them before a service. -/

namespace Relays

open Interaction PosixPath PyValues SqliteStore SecretsConsumer Forwarding Pipeline Verdicts
open MappedValues SimpleClient

/-- A server whose consumers are all forwarders, at its endpoint. It keeps
    nothing itself, so that a call through it changes only what the upstream
    server keeps. -/
structure Gateway extends Endpoint where
  authenticators : Option (List (Voter Request))
  authorizers : Option (List (Voter Request))
  forwarders : Mounts Forwarder

namespace Gateway

instance : Coe Gateway Endpoint := ⟨Gateway.toEndpoint⟩

variable (gateway : Gateway)

/-- What the pipeline reads; the answer of a consumer is the consumer with the
    request that it is given. -/
def config : HttpConfig (Forwarder × Request) where
  authenticators := gateway.authenticators
  authorizers := gateway.authorizers
  consumers :=
    ⟨mapValues (fun fwd req => (fwd, req)) gateway.forwarders.map, by
      intro chain hchain
      exact gateway.forwarders.proper chain ((mem_mapValues _ _).mp hchain)⟩

/-- `handle_one_request`, where the consumers ask an upstream server. -/
def serve {σ : Type} (upstream : ClientRequest → σ → Except Exc Reply × σ)
    (sent : ClientRequest) (s : σ) : Except Exc Reply × σ :=
  gateway.handleOneRequest gateway.config (fun fwd req s => (fwd.handle req).run upstream s)
    sent s

end Gateway

/-- A chain of gateways; the last one asks the service. -/
def serveThrough (service : Service) :
    List Gateway → ClientRequest → Table → Except Exc Reply × Table
  | [] => service.serve
  | gateway :: gateways => gateway.serve (serveThrough service gateways)

/-- A call of a method, through gateways. -/
def askThrough (lib : JsonLibrary) (client : CustodiaHTTPClient) (service : Service)
    (gateways : List Gateway) : Action → Table → Except Failure Json × Table :=
  askOver lib client (serveThrough service gateways)

end Relays
