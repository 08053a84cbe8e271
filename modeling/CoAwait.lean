import CoAwait.FutureTask
import CoAwait.MutexOrder
import CoAwait.MutexClients
import CoAwait.TimedRefinement
import CoAwait.ChannelClients
import CoAwait.ChannelPressure
import CoAwait.ChannelResize
import CoAwait.ChannelTruth
import CoAwait.RoutineLifetime
import CoAwait.RoutineContinued
import CoAwait.RoutineCurrent
import CoAwait.RoutineScope
import CoAwait.RoutineProcesses
import CoAwait.RoutineStructured
import CoAwait.MultiConsumer
import CoAwait.ForEachPaths
import CoAwait.ForEachCuts
import CoAwait.SpecificPtrThread
import CoAwait.SpecificPtrCleanup
import CoAwait.SpecificPtrAddresses
import CoAwait.RendezvousClosed
import CoAwait.Generate
import CoAwait.IoContextJoin
import CoAwait.Networking
import CoAwait.YieldTo
