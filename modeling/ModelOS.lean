import ModelOS.BlockChain.AuxPowState
import ModelOS.TxScript.SigHashCommits
import ModelOS.PearlBlake3.OpeningBinding
import ModelOS.BlockChain.OrphanVerdict
import ModelOS.BlockChain.ProofOfWork
import ModelOS.BlockChain.RunLedger
import ModelOS.BlockChain.RelaySize
import ModelOS.BtcUtil.BlockFaithful
import ModelOS.V2Transport.GetsThrough
import ModelOS.BlockChain.Emission
import ModelOS.BlockChain.CacheFailure
import ModelOS.BlockChain.BountyFilter
import ModelOS.BlockChain.EasiestDifficulty
import ModelOS.Spv.HeaderWrite
import ModelOS.Wallet.AuthoredFee
import ModelOS.Wallet.ChainNotifications
import ModelOS.BlockChain.BestState
import ModelOS.ZkPow.DifficultyBound
import ModelOS.BlockChain.AsertSchedule
import ModelOS.ZkPow.PatternTiles
import ModelOS.BlockChain.MerkleStore
import ModelOS.BlockChain.CoinbaseHeight
import ModelOS.NetSync.Strikes
import ModelOS.Spv.LruCache
