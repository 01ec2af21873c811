import Eror.Library.Codec
import Eror.Library.Layers
import Eror.Library.ShiftRegister
import Eror.Library.WriteLog
import Eror.Analysis.BlockCount
import Eror.Analysis.PredictedOnion
import Eror.Analysis.PredictedBlocks
import Eror.Analysis.MacBinding
import Eror.Analysis.Rewrap
import Eror.Analysis.OnionSize
import Eror.Analysis.HeaderAccounting
import Eror.Analysis.HeaderIdentity
import Eror.Analysis.WireTransport
import Eror.Analysis.Tagging
import Eror.Analysis.UniformSize
import Eror.Analysis.PayloadContract
import Eror.Analysis.PathErrors
import Eror.Analysis.MauledCiphertext
import Eror.Analysis.ReplyAuthenticity
import Eror.Analysis.WireNetwork
import Eror.Analysis.NodeVerdict
import Eror.Analysis.CreateOnionRun
import Eror.Analysis.SphinxReplies
import Eror.Analysis.SphinxDerivedKeys
import Eror.Analysis.SizesTable
import Eror.Analysis.KeySeparation
import Eror.Analysis.ShapeKept
