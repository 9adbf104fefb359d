import AimRT.Zenoh.ZenohChannelBackend
import AimRT.Zenoh.ZenohRpcFrame

/-!
# The senders through shared memory

What `AimRT.Zenoh.ZenohShmSend` says about a sender, for the three of them: `Publish` of the channel
backend, `Invoke` and the callback of a service.  Their loops end, and they deliver what they send if
and only if `Delivers` holds of the header, the data, the remembered size and the provider; they leave
no block behind if and only if `KeepsBlocks` holds.
-/

namespace AimRT.Zenoh

open AimRT.Lib AimRT.Util AimRT.Channel AimRT.Rpc

variable {p : Provider} {fuel : ℕ} {run : ShmRun}

/-! ### The end of the loops -/

/-- Sending ends with the same run, however long the loop is followed beyond the provider's size. -/
def ShmUser.EndsWith (u : ShmUser) (p : Provider) (m : Payload) (size : UInt64) (run : ShmRun) : Prop :=
  ∀ fuel, p.capacity < fuel → u.send p m size fuel = some run

theorem ShmUser.Lawful.endsWith_delivered {u : ShmUser} {header : Bytes} {fits : Prop} {netLimit : ℕ}
    (hu : u.Lawful header fits netLimit) (p : Provider) (m : Payload) (size : UInt64) :
    ∃ run, u.EndsWith p m size run ∧
      (run.outcome.Delivered ↔ Delivers header fits netLimit u.msgSizeBits p m size.toNat) := by
  obtain ⟨run, hrun⟩ := hu.send_ends (p := p) (m := m) size
  exact ⟨run, hrun, hu.send_delivered (hrun _ (Nat.lt_succ_self _))⟩

/-- **Main result.**  The sizing loops end, and they end with the message published or a serialization
that fails by itself if and only if `Delivers` holds. -/
theorem zenohShm_delivered (p : Provider) (size : UInt64) :
    (∀ msg : ShmMsgWrapper, msg.metaKeyValsArray.length / 2 ≤ 255 →
      ∃ run, (channelUser msg).EndsWith p msg.content size run ∧ (run.outcome.Delivered ↔
        Delivers msg.header msg.Fits (2 ^ 31) 64 p msg.content size.toNat)) ∧
    (∀ (limitDomain : Bytes) (call : ClientCall) (reqId : UInt32) (m : Payload),
      call.ctx.getMetaKeyValsArray.length / 2 ≤ 255 →
      ∃ run, (reqUser (reqHeader limitDomain call) reqId).EndsWith p m size run ∧
        (run.outcome.Delivered ↔ Delivers (encodeReqHeader (reqHeader limitDomain call) reqId)
          (ReqFits limitDomain call) (2 ^ 64) 32 p m size.toNat)) ∧
    (∀ (serializationType : Bytes) (reqIdBuf : ReqIdBuf) (m : Payload),
      ∃ run, (rspUser serializationType reqIdBuf).EndsWith p m size run ∧
        (run.outcome.Delivered ↔ Delivers (encodeRspHeader serializationType reqIdBuf 0)
          (RspFits serializationType) (2 ^ 64) 32 p m size.toNat)) := by
  refine ⟨fun msg hcount => ?_, fun limitDomain call reqId m hcount => ?_,
    fun serializationType reqIdBuf m => ?_⟩
  · exact (channelUser_lawful (Nat.not_lt.2 hcount)).endsWith_delivered p msg.content size
  · exact (reqUser_lawful hcount reqId).endsWith_delivered p m size
  · exact (rspUser_lawful serializationType reqIdBuf).endsWith_delivered p m size

theorem fits_exampleMsg : (exampleMsg none).Fits :=
  ⟨by decide, by decide, by decide⟩

theorem reqFits_exampleCall : ReqFits [] exampleCall :=
  ⟨by decide, by decide, by decide, by decide⟩

theorem zenohShm_delivered_small :
    (∃ run, (channelUser (exampleMsg none)).EndsWith exampleProvider (exampleMsg none).content 32 run ∧
      run.outcome.Delivered) ∧
    (∃ run, (reqUser (reqHeader [] exampleCall) 7).EndsWith exampleProvider (exampleData [1]) 32 run ∧
      run.outcome.Delivered) ∧
    (∃ run, (rspUser [] exampleReqIdBuf).EndsWith exampleProvider (exampleData [1]) 32 run ∧
      run.outcome.Delivered) := by
  obtain ⟨hmsg, hreq, hrsp⟩ := zenohShm_delivered exampleProvider 32
  refine ⟨?_, ?_, ?_⟩
  · obtain ⟨run, hends, hdelivered⟩ := hmsg (exampleMsg none) (Nat.zero_le _)
    refine ⟨run, hends, hdelivered.2 (Or.inr ⟨by decide, fits_exampleMsg, by decide, ?_⟩)⟩
    exact Or.inl (Or.inr ⟨fits_exampleMsg, by decide⟩)
  · obtain ⟨run, hends, hdelivered⟩ := hreq [] exampleCall 7 (exampleData [1]) (Nat.zero_le _)
    refine ⟨run, hends, hdelivered.2 (Or.inr ⟨by decide, reqFits_exampleCall, by decide, ?_⟩)⟩
    exact Or.inl (Or.inr ⟨reqFits_exampleCall, by decide⟩)
  · obtain ⟨run, hends, hdelivered⟩ := hrsp [] exampleReqIdBuf (exampleData [1])
    have hfits : RspFits [] := Nat.zero_le _
    refine ⟨run, hends, hdelivered.2 (Or.inr ⟨by decide, hfits, by decide, ?_⟩)⟩
    exact Or.inl (Or.inr ⟨hfits, by decide⟩)

/-- A message whose header does not fit into the remembered size is lost. -/
theorem not_zenohShm_delivered : ¬ ∀ (p : Provider) (size : UInt64) (msg : ShmMsgWrapper),
    msg.metaKeyValsArray.length / 2 ≤ 255 →
      ∃ run, (channelUser msg).EndsWith p msg.content size run ∧ run.outcome.Delivered := by
  intro h
  obtain ⟨run, hends, hdelivered⟩ := h exampleProvider 4 (exampleMsg none) (Nat.zero_le _)
  have hrun : (channelUser (exampleMsg none)).send exampleProvider (exampleMsg none).content 4 65 =
    some ⟨.thrown, _⟩ := rfl
  obtain rfl := Option.some.inj (hrun.symm.trans (hends 65 (by decide)))
  exact not_delivered_thrown hdelivered

/-! ### The blocks -/

/-- The first loan is refused, or its block has room for the header and the data and is put. -/
def KeepsBlocks (header : Bytes) (fits : Prop) (bits : ℕ) (p : Provider) (m : Payload) (size : ℕ) :
    Prop :=
  ¬ p.Grants 0 0 size ∨ (fits ∧ 4 + header.length ≤ size ∧ FirstFits header bits m size)

/-- `Publish` comes to its loop. -/
def ZenohChannelBackend.UsesShm (b : ZenohChannelBackend) (msg : ShmMsgWrapper) : Prop :=
  b.state = .start ∧ b.publisherRegisterMap (b.zenohPubTopic msg) = some true ∧
    msg.metaKeyValsArray.length / 2 ≤ 255

/-- `Invoke` comes to its loop. -/
def ZenohRpcBackend.UsesShm (b : ZenohRpcBackend) (call : ClientCall) : Prop :=
  b.state = .start ∧
    b.publisherRegisterMap (reqHeader b.limitDomain call).nodePubTopic = some true ∧
    (reqHeader b.limitDomain call).check = .ok ()

theorem ZenohChannelBackend.publish_of_usesShm {b : ZenohChannelBackend} {msg : ShmMsgWrapper}
    (h : b.UsesShm msg) :
    b.publish p msg fuel =
      (channelUser msg).send p msg.content (b.zPubShmSizeMap (b.zenohPubTopic msg)) fuel := by
  obtain ⟨hstate, hregistered, hcount⟩ := h
  rw [publish, if_neg (by rw [hstate]; exact fun h => h rfl), hregistered]
  simp only [if_true, if_neg (Nat.not_lt.2 hcount)]

theorem ZenohChannelBackend.ledger_of_not_usesShm {b : ZenohChannelBackend} {msg : ShmMsgWrapper}
    (h : ¬ b.UsesShm msg) (hrun : b.publish p msg fuel = some run) : run.ledger = [] := by
  unfold publish at hrun
  split at hrun
  · obtain rfl := Option.some.inj hrun
    rfl
  rename_i hstate
  split at hrun
  · obtain rfl := Option.some.inj hrun
    rfl
  rename_i shmEnabled hregistered
  split at hrun
  · obtain rfl := Option.some.inj hrun
    rfl
  rename_i hcount
  cases shmEnabled with
  | true => exact absurd ⟨not_not.1 hstate, hregistered, Nat.not_lt.1 hcount⟩ h
  | false =>
    obtain rfl := Option.some.inj hrun
    rfl

theorem ZenohRpcBackend.sendReq_of_usesShm {b : ZenohRpcBackend} {call : ClientCall}
    {reqId : UInt32} {req : Bytes → Payload} (h : b.UsesShm call) :
    b.sendReq p call reqId req fuel = .ok ((reqUser (reqHeader b.limitDomain call) reqId).send p
      (req (reqHeader b.limitDomain call).serializationType)
      (b.zNodeShmSizeMap (reqHeader b.limitDomain call).nodePubTopic) fuel) := by
  obtain ⟨hstate, hregistered, hcheck⟩ := h
  rw [sendReq, if_neg (by rw [hstate]; exact fun h => h rfl)]
  simp only [hregistered, hcheck]
  rfl

theorem ZenohRpcBackend.ledger_of_not_usesShm {b : ZenohRpcBackend} {call : ClientCall}
    {reqId : UInt32} {req : Bytes → Payload} (h : ¬ b.UsesShm call)
    (hrun : b.sendReq p call reqId req fuel = .ok (some run)) : run.ledger = [] := by
  unfold sendReq at hrun
  split at hrun
  · cases hrun
  rename_i hstate
  dsimp only at hrun
  split at hrun
  · obtain rfl := Option.some.inj (Except.ok.inj hrun)
    rfl
  rename_i shmEnabled hregistered
  obtain ⟨_, hcheck, hrun⟩ := bind_eq_ok hrun
  cases shmEnabled with
  | true => exact absurd ⟨not_not.1 hstate, hregistered, hcheck⟩ h
  | false =>
    obtain rfl := Option.some.inj (Except.ok.inj hrun)
    rfl

theorem ZenohRpcBackend.sendRsp_settled {b : ZenohRpcBackend} {pattern serializationType : Bytes}
    {reqIdBuf : ReqIdBuf} {rsp : Payload}
    (hrun : b.sendRsp p pattern serializationType reqIdBuf rsp fuel = some run) :
    run.ledger.Settled ↔ (b.publisherRegisterMap (ascii "rsp/" ++ pattern) = some true →
      KeepsBlocks (encodeRspHeader serializationType reqIdBuf 0)
        (RspFits serializationType) 32 p rsp
        (b.zNodeShmSizeMap (ascii "rsp/" ++ pattern)).toNat) := by
  unfold sendRsp at hrun
  dsimp only at hrun
  split at hrun
  · rename_i hregistered
    obtain rfl := Option.some.inj hrun
    exact ⟨fun _ h => (nomatch hregistered.symm.trans h), fun _ => Ledger.settled_nil⟩
  · rename_i hregistered
    exact ((rspUser_lawful serializationType reqIdBuf).send_settled hrun).trans
      ⟨fun h _ => h, fun h => h hregistered⟩
  · rename_i hregistered
    obtain rfl := Option.some.inj hrun
    exact ⟨fun _ h => (nomatch hregistered.symm.trans h), fun _ => Ledger.settled_nil⟩

/-- **Main result.**  A run hands over every block that it has loaned, and drops none twice, if and
only if it does not come to the loop or `KeepsBlocks` holds there. -/
theorem zenohShm_settled (p : Provider) (fuel : ℕ) (run : ShmRun) :
    (∀ (b : ZenohChannelBackend) (msg : ShmMsgWrapper), b.publish p msg fuel = some run →
      (run.ledger.Settled ↔ (b.UsesShm msg → KeepsBlocks msg.header msg.Fits 64 p msg.content
        (b.zPubShmSizeMap (b.zenohPubTopic msg)).toNat))) ∧
    (∀ (b : ZenohRpcBackend) (call : ClientCall) (reqId : UInt32) (req : Bytes → Payload),
      b.sendReq p call reqId req fuel = .ok (some run) →
      (run.ledger.Settled ↔ (b.UsesShm call →
        KeepsBlocks (encodeReqHeader (reqHeader b.limitDomain call) reqId) (ReqFits b.limitDomain call)
          32 p (req (reqHeader b.limitDomain call).serializationType)
          (b.zNodeShmSizeMap (reqHeader b.limitDomain call).nodePubTopic).toNat))) ∧
    (∀ (b : ZenohRpcBackend) (pattern serializationType : Bytes) (reqIdBuf : ReqIdBuf) (rsp : Payload),
      b.sendRsp p pattern serializationType reqIdBuf rsp fuel = some run →
      (run.ledger.Settled ↔ (b.publisherRegisterMap (ascii "rsp/" ++ pattern) = some true →
        KeepsBlocks (encodeRspHeader serializationType reqIdBuf 0)
          (RspFits serializationType) 32 p rsp
          (b.zNodeShmSizeMap (ascii "rsp/" ++ pattern)).toNat))) := by
  refine ⟨fun b msg hrun => ?_, fun b call reqId req hrun => ?_,
    fun b pattern serializationType reqIdBuf rsp hrun => ZenohRpcBackend.sendRsp_settled hrun⟩
  · by_cases h : b.UsesShm msg
    · rw [ZenohChannelBackend.publish_of_usesShm h] at hrun
      exact ((channelUser_lawful (Nat.not_lt.2 h.2.2)).send_settled hrun).trans
        ⟨fun hkeeps _ => hkeeps, fun hkeeps => hkeeps h⟩
    · rw [ZenohChannelBackend.ledger_of_not_usesShm h hrun]
      exact ⟨fun _ hshm => absurd hshm h, fun _ => Ledger.settled_nil⟩
  · by_cases h : b.UsesShm call
    · rw [ZenohRpcBackend.sendReq_of_usesShm h] at hrun
      obtain ⟨_, -, hcheck⟩ := bind_eq_ok h.2.2
      exact ((reqUser_lawful (check_eq_ok hcheck) reqId).send_settled (Except.ok.inj hrun)).trans
        ⟨fun hkeeps _ => hkeeps, fun hkeeps => hkeeps h⟩
    · rw [ZenohRpcBackend.ledger_of_not_usesShm h hrun]
      exact ⟨fun _ hshm => absurd hshm h, fun _ => Ledger.settled_nil⟩

theorem zenohShm_settled_small : ∃ run₁ run₂ run₃,
    (exampleBackend 32).publish exampleProvider (exampleMsg none) 1 = some run₁ ∧
      run₁.ledger.Settled ∧
    exampleRpcBackend.sendReq exampleProvider exampleCall 7 (fun _ => exampleData [1]) 1 =
      .ok (some run₂) ∧ run₂.ledger.Settled ∧
    exampleRpcBackend.sendRsp exampleProvider [] [] exampleReqIdBuf (exampleData [1]) 1 =
      some run₃ ∧ run₃.ledger.Settled := by
  have hmsg := (zenohShm_settled exampleProvider 1 _).1 (exampleBackend 32) (exampleMsg none) rfl
  have hreq := (zenohShm_settled exampleProvider 1 _).2.1 exampleRpcBackend exampleCall 7
    (fun _ => exampleData [1]) rfl
  have hrsp := (zenohShm_settled exampleProvider 1 _).2.2 exampleRpcBackend [] [] exampleReqIdBuf
    (exampleData [1]) rfl
  refine ⟨_, _, _, rfl, hmsg.2 fun _ => Or.inr ⟨fits_exampleMsg, by decide, rfl, by decide⟩, rfl,
    hreq.2 fun _ => Or.inr ⟨reqFits_exampleCall, by decide, rfl, by decide⟩, rfl,
    hrsp.2 fun _ => Or.inr ⟨Nat.zero_le _, by decide, rfl, by decide⟩⟩

/-- Where the header throws, the block is neither put nor dropped. -/
theorem not_zenohShm_settled : ¬ ∀ (b : ZenohChannelBackend) (p : Provider) (msg : ShmMsgWrapper)
    (fuel : ℕ) (run : ShmRun), b.publish p msg fuel = some run → run.ledger.Settled := by
  intro h
  have hsettled := h (exampleBackend 4) exampleProvider (exampleMsg none) 1 _ rfl
  exact absurd (hsettled 0 (List.mem_singleton_self _)) (by decide)

end AimRT.Zenoh
