import Arbxx.ThreeValuedComparison
import Arbxx.DelegationChains
import Arbxx.TwosComplement
import Arbxx.DyadicRounding
import Arbxx.DyadicScaling
import Arbxx.NearestRounding
import Arbxx.Balls
import Arbxx.OwnedHeap
import Arbxx.OwnedPrograms
import Arbxx.ObjectLibrary
import Arbxx.ObjectLifetimes
import Arbxx.NumberLibrary
import Arbxx.Platform
import Arbxx.CLibrary
import Arbxx.OverloadDelegation
import Arbxx.ArbOperators
import Arbxx.ArfOperators
import Arbxx.ArfDecomposition
import Arbxx.ArfOrder
import Arbxx.ArfScaling
import Arbxx.BallComparison
import Arbxx.GuardedPrograms
import Arbxx.BallPrograms
import Arbxx.PythonRelations
import Arbxx.SpecialBalls
import Arbxx.ObjectCalls
import Arbxx.MethodBodies
import Arbxx.MethodEffects
import Arbxx.MethodRuns
import Arbxx.ExactComparison
import Arbxx.ExactConversion
import Arbxx.IntegerConversion
import Arbxx.IntervalConversion
import Arbxx.IntegerParts
import Arbxx.LoadFailures
import Arbxx.RadixNumerals
import Arbxx.PaddedText
import Arbxx.Printing
import Arbxx.RationalRounding
import Arbxx.RationalComparison
import Arbxx.RationalPrecision
import Arbxx.Serialization
import Arbxx.InterruptedSaves
import Arbxx.ShiftRuns
import Arbxx.Doubles
