import CryptixMiner.Pow.Header

/-! A block as a node sends it and gets it back, in `proto/rpc.proto`. The miner reads its header alone; the rest only
    comes back with it. -/

namespace CryptixMiner

structure RpcOutpoint where
  transactionId : String
  index : UInt32

structure RpcScriptPublicKey where
  version : UInt32
  scriptPublicKey : String

structure RpcTransactionInputVerboseData where

structure RpcTransactionInput where
  previousOutpoint : Option RpcOutpoint
  signatureScript : String
  sequence : UInt64
  sigOpCount : UInt32
  verboseData : Option RpcTransactionInputVerboseData

structure RpcTransactionOutputVerboseData where
  scriptPublicKeyType : String
  scriptPublicKeyAddress : String

structure RpcTransactionOutput where
  amount : UInt64
  scriptPublicKey : Option RpcScriptPublicKey
  verboseData : Option RpcTransactionOutputVerboseData

structure RpcTransactionVerboseData where
  transactionId : String
  hash : String
  mass : UInt64
  blockHash : String
  blockTime : UInt64

structure RpcTransaction where
  version : UInt32
  inputs : List RpcTransactionInput
  outputs : List RpcTransactionOutput
  lockTime : UInt64
  subnetworkId : String
  gas : UInt64
  payload : String
  verboseData : Option RpcTransactionVerboseData

structure RpcBlockVerboseData where
  hash : String
  /-- The bits of a `double`. -/
  difficulty : UInt64
  selectedParentHash : String
  transactionIds : List String
  isHeaderOnly : Bool
  blueScore : UInt64
  childrenHashes : List String
  mergeSetBluesHashes : List String
  mergeSetRedsHashes : List String
  isChainBlock : Bool

structure RpcBlock where
  header : Option RpcBlockHeader
  transactions : List RpcTransaction
  verboseData : Option RpcBlockVerboseData

end CryptixMiner
